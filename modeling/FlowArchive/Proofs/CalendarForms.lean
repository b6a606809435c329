import FlowArchive.Proofs.WrittenTimes

/-!
# Calendar forms

The words of a written time are read by the first of the calendar forms that is their own, with an offset behind them or
without. The forms before it have points where hyphens stand, a short year, or a time of day that is not written.
-/

namespace FlowArchive

namespace TimeArgument

open TimeReader

variable {format : TimeFormat} {g : TimeFields} {s : List Char} {o : Option WrittenOffset} {t : Timestamp}

/-! ## Calendar forms -/

/-- Fields with the offset that is written behind them. -/
def withOffset (g : TimeFields) (o : Option WrittenOffset) : TimeFields :=
  { g with offset := o.elim g.offset WrittenOffset.seconds }

theorem timestamp?_of_none (refused : format.read .blank s = none) : format.timestamp? s = none := by
  rw [TimeFormat.timestamp?, TimeReader.timestamp?, refused]

theorem zoned_of_none (refused : format.read .blank s = none) : (zoned format).timestamp? s = none := by
  refine timestamp?_of_none ?_
  rw [zoned, read_append, refused, Option.bind_none]

theorem calendar?_of_none (refused : format.read .blank s = none) : calendar? format s = none := by
  rw [calendar?, zoned_of_none refused, timestamp?_of_none refused]
  rfl

theorem zoned_of_read {p : WrittenOffset} (read : format.read .blank s = some (g, offsetChars (some p))) :
    (zoned format).timestamp? s = (withOffset g (some p)).timestamp? := by
  rw [TimeFormat.timestamp?, TimeReader.timestamp?, zoned, read_append, read, Option.bind_some, read_offset]
  rfl

/-- Where a form reads all but the offset, the time is the one of its fields and the offset. -/
theorem calendar?_of_read (read : format.read .blank s = some (g, offsetChars o)) :
    calendar? format s = (withOffset g o).timestamp? := by
  cases o with
  | none =>
    have noOffset : TimeFormat.read (zoned format) .blank s = none := by
      rw [zoned, read_append, read, Option.bind_some, read_offset, Option.map_none]
    rw [calendar?, timestamp?_of_none noOffset, TimeFormat.timestamp?, TimeReader.timestamp?, read]
    rfl
  | some p =>
    have leftOver : format.timestamp? s = none := by
      rw [TimeFormat.timestamp?, TimeReader.timestamp?, read]
      rfl
    rw [calendar?, zoned_of_read read, leftOver, Option.or_none]

end TimeArgument

namespace WrittenDate

open TimeArgument WrittenClock

variable {t : Timestamp}

/-- The fields of a date and a time of day. -/
def fields (d : WrittenDate) (k : Option WrittenClock) : TimeFields where
  weekday := none
  year := d.date.year
  month := d.date.month
  day := d.date.day
  hour := k.elim 0 fun k => k.hour.value
  minute := k.elim 0 fun k => k.minute.value
  second := k.elim 0 fun k => k.second.elim 0 Numeral.value
  offset := 0

theorem clock_le (d : WrittenDate) (k : Option WrittenClock) :
    (d.fields k).hour ≤ 23 ∧ (d.fields k).minute ≤ 59 ∧ (d.fields k).second ≤ 60 := by
  cases k with
  | none => exact ⟨Nat.zero_le _, Nat.zero_le _, Nat.zero_le _⟩
  | some k =>
    refine ⟨k.hour_le, k.minute_le, ?_⟩
    have bound := k.second_le
    cases seconds : k.second with
    | none => simp [fields, seconds]
    | some n => simpa [fields, seconds] using bound n seconds

theorem read_clock (d : WrittenDate) (k : WrittenClock) (o : Option WrittenOffset) :
    TimeFormat.read (d.format ++ k.format) .blank (d.chars ++ ' ' :: (k.body ++ offsetChars o)) =
      some (d.fields (some k), offsetChars o) := by
  rw [read_append, d.read_format (noDigit_cons rfl), Option.bind_some, k.read_body]
  rfl

theorem shortDate_mem : shortDate ∈ dateFormats := by simp [dateFormats]

theorem longDate_mem : longDate ∈ dateFormats := by simp [dateFormats]

theorem isoDate_mem : isoDate ∈ dateFormats := by simp [dateFormats]

/-- The first calendar form that takes a date and a time of day is their own. -/
theorem calendarFormats_clock (d : WrittenDate) (k : WrittenClock) (o : Option WrittenOffset)
    (found : (withOffset (d.fields (some k)) o).timestamp? = some t) :
    (calendarFormats.findSome? fun f => calendar? f (d.chars ++ ' ' :: (k.body ++ offsetChars o))) = some t := by
  have own := calendar?_of_read (d.read_clock k o)
  rw [found] at own
  have tooLong (minutes : k.second = none) {format : TimeFormat} (listed : format ∈ dateFormats) :=
    calendar?_of_none (d.timeOfDay_refuses minutes listed o)
  -- The forms before their own have points where hyphens stand, a short year, or seconds that are not written.
  cases d with
  | shortPoints day month year =>
    cases seconds : k.second with
    | none =>
      have own : calendar? (shortDate ++ hoursMinutes) _ = some t := k.format_minutes seconds ▸ own
      simp only [calendarFormats, List.findSome?_cons, tooLong seconds shortDate_mem, tooLong seconds longDate_mem, own]
    | some n =>
      have own : calendar? (shortDate ++ timeOfDay) _ = some t := k.format_seconds seconds ▸ own
      simp only [calendarFormats, List.findSome?_cons, own]
  | longPoints day month year =>
    have shortYear (behind : TimeFormat) :=
      calendar?_of_none (shortDate_refuses day month year behind (k.body ++ offsetChars o))
    cases seconds : k.second with
    | none =>
      have own : calendar? (longDate ++ hoursMinutes) _ = some t := k.format_minutes seconds ▸ own
      have short : calendar? (shortDate ++ hoursMinutes) _ = none := shortYear []
      simp only [calendarFormats, List.findSome?_cons, tooLong seconds shortDate_mem, tooLong seconds longDate_mem,
        short, own]
    | some n =>
      have own : calendar? (longDate ++ timeOfDay) _ = some t := k.format_seconds seconds ▸ own
      have short : calendar? (shortDate ++ timeOfDay) _ = none := shortYear _
      simp only [calendarFormats, List.findSome?_cons, short, own]
  | hyphens year month day =>
    have points (behind : TimeFormat) :=
      calendar?_of_none (points_hyphens year month day (' ' :: (k.body ++ offsetChars o)) behind)
    have short (behind : TimeFormat) : calendar? (shortDate ++ behind) _ = none := points _
    have long (behind : TimeFormat) : calendar? (longDate ++ behind) _ = none := points _
    cases seconds : k.second with
    | none =>
      have own : calendar? (isoDate ++ hoursMinutes) _ = some t := k.format_minutes seconds ▸ own
      simp only [calendarFormats, List.findSome?_cons, short, long, tooLong seconds isoDate_mem, own]
    | some n =>
      have own : calendar? (isoDate ++ timeOfDay) _ = some t := k.format_seconds seconds ▸ own
      simp only [calendarFormats, List.findSome?_cons, short, long, own]

/-- No form with a time of day takes a date by itself. -/
theorem calendarFormats_date (d : WrittenDate) (o : Option WrittenOffset) :
    (calendarFormats.findSome? fun f => calendar? f (d.chars ++ offsetChars o)) = none := by
  have minutes {format : TimeFormat} (listed : format ∈ dateFormats) : calendar? (format ++ hoursMinutes) _ = none :=
    calendar?_of_none (d.clock_refuses listed o [])
  have seconds {format : TimeFormat} (listed : format ∈ dateFormats) : calendar? (format ++ timeOfDay) _ = none :=
    calendar?_of_none (d.clock_refuses listed o _)
  simp only [calendarFormats, List.findSome?_cons, List.findSome?_nil, minutes shortDate_mem, minutes longDate_mem,
    minutes isoDate_mem, seconds shortDate_mem, seconds longDate_mem, seconds isoDate_mem]

/-- The first form of dates that takes a date is its own. -/
theorem dateFormats_date (d : WrittenDate) (found : (d.fields none).timestamp? = some t) :
    (dateFormats.findSome? fun f => f.timestamp? d.chars) = some t := by
  have own : d.format.timestamp? d.chars = some t := by
    have read := d.read_format (f := .blank) noDigit_nil
    rw [List.append_nil] at read
    rw [TimeFormat.timestamp?, TimeReader.timestamp?, read]
    exact found
  cases d with
  | shortPoints day month year =>
    have own : shortDate.timestamp? _ = some t := own
    simp only [dateFormats, List.findSome?_cons, own]
  | longPoints day month year =>
    have short : shortDate.timestamp? (longPoints day month year).chars = none := by
      obtain ⟨g, q, read⟩ := shortDate_longPoints (f := .blank) day month year []
      obtain ⟨c, s, shown, -⟩ := q.exists_cons (by decide)
      rw [List.append_nil, List.append_nil, shown] at read
      rw [TimeFormat.timestamp?, TimeReader.timestamp?, read]
    have own : longDate.timestamp? _ = some t := own
    simp only [dateFormats, List.findSome?_cons, short, own]
  | hyphens year month day =>
    have points (behind : TimeFormat) := timestamp?_of_none (points_hyphens year month day [] behind)
    simp only [List.append_nil] at points
    have short : shortDate.timestamp? _ = none := points _
    have long : longDate.timestamp? _ = none := points _
    have own : isoDate.timestamp? _ = some t := own
    simp only [dateFormats, List.findSome?_cons, short, long, own]

/-- No form of dates takes a date and an offset. -/
theorem dateFormats_offset (d : WrittenDate) (p : WrittenOffset) :
    (dateFormats.findSome? fun f => f.timestamp? (d.chars ++ ' ' :: p.chars)) = none := by
  rw [List.findSome?_eq_none_iff]
  intro format listed
  rw [TimeFormat.timestamp?, TimeReader.timestamp?]
  have stops : NoDigit (' ' :: p.chars) := noDigit_cons rfl
  rcases d.read_date (f := .blank) listed stops with refused | ⟨g, read⟩ | ⟨g, q, read⟩
  · rw [refused]
  · rw [read]
  · obtain ⟨c, s, shown, -⟩ := q.exists_cons (by decide)
    rw [read, shown]
    rfl

/-! ## Dates with an offset -/

/-- The time of day that a date with an offset is given. -/
def midnight : WrittenClock where
  gap := [' ']
  hour := ⟨['0', '0'], List.all_eq_true.1 rfl, by decide, by decide⟩
  minute := ⟨['0', '0'], List.all_eq_true.1 rfl, by decide, by decide⟩
  second := none
  gap_ne_nil := List.cons_ne_nil _ _
  gap_blank := List.all_eq_true.1 rfl
  hour_le := by decide
  minute_le := by decide
  second_le := nofun

/-- The first form of dates that takes a date, midnight and an offset is the one of the date. -/
theorem dateFormats_midnight (d : WrittenDate) (p : WrittenOffset)
    (found : (withOffset (d.fields none) (some p)).timestamp? = some t) :
    (dateFormats.findSome? fun f =>
      (zoned (f ++ hoursMinutes)).timestamp? (d.chars ++ ' ' :: (midnight.body ++ offsetChars (some p)))) = some t := by
  have own : (zoned (d.format ++ hoursMinutes)).timestamp? _ = some t :=
    (zoned_of_read (d.read_clock midnight (some p))).trans found
  cases d with
  | shortPoints day month year =>
    have own : (zoned (shortDate ++ hoursMinutes)).timestamp? _ = some t := own
    simp only [dateFormats, List.findSome?_cons, own]
  | longPoints day month year =>
    have short : (zoned (shortDate ++ hoursMinutes)).timestamp? _ = none :=
      zoned_of_none (shortDate_refuses day month year [] (midnight.body ++ offsetChars (some p)))
    have own : (zoned (longDate ++ hoursMinutes)).timestamp? _ = some t := own
    simp only [dateFormats, List.findSome?_cons, short, own]
  | hyphens year month day =>
    have points (behind : TimeFormat) :=
      zoned_of_none (points_hyphens year month day (' ' :: (midnight.body ++ offsetChars (some p))) behind)
    have short : (zoned (shortDate ++ hoursMinutes)).timestamp? _ = none := points _
    have long : (zoned (longDate ++ hoursMinutes)).timestamp? _ = none := points _
    have own : (zoned (isoDate ++ hoursMinutes)).timestamp? _ = some t := own
    simp only [dateFormats, List.findSome?_cons, short, long, own]

end WrittenDate

theorem Text.splitAtLast?_append {sep : Char} {v w : List Char} (absent : sep ∉ w) :
    splitAtLast? sep (v ++ sep :: w) = some (v, w) := by
  have others : ∀ c ∈ w.reverse, (c != sep) = true := by
    intro c member
    rw [bne_iff_ne]
    rintro rfl
    exact absent (List.mem_reverse.1 member)
  have back : (v ++ sep :: w).reverse = w.reverse ++ sep :: v.reverse := by simp
  rw [splitAtLast?, back, List.dropWhile_append_of_pos others, List.takeWhile_append_of_pos others,
    List.dropWhile_cons_of_neg (by simp), List.takeWhile_cons_of_neg (by simp)]
  simp

namespace WrittenTime

open TimeArgument

variable {t : Timestamp}

/-- Whatever the words of a written time are, one of the forms for words reads them. -/
theorem collapsed_spaced (w : WrittenTime) (o : Option WrittenOffset)
    (found : (withOffset (w.date.fields w.clock) o).timestamp? = some t) :
    collapsed? (w.spaced ++ offsetChars o) = some t := by
  obtain ⟨c, s, shown, digit⟩ := w.date.exists_cons
  have noName : namedFormat.timestamp? (w.spaced ++ offsetChars o) = none := by
    refine timestamp?_of_none ?_
    rw [spaced, shown]
    exact read_weekdayName digit _ _ _
  rw [collapsed?, noName, Option.none_or]
  cases clock : w.clock with
  | some k =>
    rw [clock] at found
    have decided := w.date.calendarFormats_clock k o found
    have text : w.spaced ++ offsetChars o = w.date.chars ++ ' ' :: (k.body ++ offsetChars o) := by simp [spaced, clock]
    rw [text, decided]
    rfl
  | none =>
    rw [clock] at found
    have text : w.spaced ++ offsetChars o = w.date.chars ++ offsetChars o := by simp [spaced, clock]
    rw [text, w.date.calendarFormats_date o, Option.none_or]
    cases o with
    | none =>
      have decided := w.date.dateFormats_date found
      rw [offsetChars, Option.elim_none, List.append_nil, decided]
      rfl
    | some p =>
      have noBlank : ' ' ∉ p.chars := fun member => Bool.noConfusion (p.solid _ member)
      have decided := w.date.dateFormats_midnight p found
      rw [offsetChars, Option.elim_some, w.date.dateFormats_offset p, Option.none_or, zonedDate?,
        Text.splitAtLast?_append noBlank, Option.bind_some]
      rw [← decided]
      simp [WrittenDate.midnight, WrittenClock.body, offsetChars]

end WrittenTime

end FlowArchive
