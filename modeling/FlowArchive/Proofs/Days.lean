import FlowArchive.Time.Timestamp

/-!
# Days and the times in them

Days are told apart by the times at which they start. A time is in the day that it is assigned to, also at either end
of the words, where the start of the first day and the end of the last one are cut. So a range that holds a time
overlaps its day, and a day before another one holds only earlier times.
-/

namespace FlowArchive

namespace Timestamp

variable {t u day : Timestamp}

theorem toInt_least : least.toInt = -9223372036854775808 := by decide

theorem toInt_greatest : greatest.toInt = 9223372036854775807 := by decide

theorem toInt_clamp (i : Int) : (clamp i).toInt = max (-9223372036854775808) (min i 9223372036854775807) := by
  have lowest := toInt_least
  have highest := toInt_greatest
  unfold clamp
  split
  · omega
  · split
    · omega
    · rw [Int64.toInt_ofInt_of_le (by omega) (by omega)]
      omega

/-! ## Where days start and end -/

/-- The start of a day is the multiple of its length at or before the time, or the least word if that is no word. -/
theorem toInt_startOfDay (t : Timestamp) :
    t.startOfDay.toInt = max (-9223372036854775808) (t.toInt - t.toInt % 86400) := by
  have upper := t.toInt_lt
  rw [startOfDay, toInt_clamp, daySeconds]
  omega

theorem toInt_endOfDay (day : Timestamp) : (endOfDay day).toInt = min 9223372036854775807 (day.toInt + 86399) := by
  have lower := day.le_toInt
  rw [endOfDay, toInt_clamp, daySeconds]
  omega

theorem startOfDay_le (t : Timestamp) : t.startOfDay ≤ t := by
  have lower := t.le_toInt
  rw [Int64.le_iff_toInt_le, toInt_startOfDay]
  omega

theorem toInt_sub_startOfDay_lt (t : Timestamp) : t.toInt - t.startOfDay.toInt < 86400 := by
  rw [toInt_startOfDay]
  omega

theorem startOfDay_startOfDay (t : Timestamp) : t.startOfDay.startOfDay = t.startOfDay := by
  have lower := t.le_toInt
  rw [← Int64.toInt_inj, toInt_startOfDay, toInt_startOfDay]
  omega

theorem dvd_startOfDay (t : Timestamp) : 86400 ∣ t.startOfDay.toInt ∨ t.startOfDay = least := by
  rw [← Int64.toInt_inj, toInt_least, toInt_startOfDay]
  omega

/-- The times of a day that starts at a multiple of its length. -/
theorem startOfDay_eq_iff (aligned : 86400 ∣ day.toInt) :
    t.startOfDay = day ↔ day.toInt ≤ t.toInt ∧ t.toInt < day.toInt + 86400 := by
  have lower := day.le_toInt
  rw [← Int64.toInt_inj, toInt_startOfDay]
  omega

theorem startOfDay_mono (before : t ≤ u) : t.startOfDay ≤ u.startOfDay := by
  have order := Int64.le_iff_toInt_le.1 before
  rw [Int64.le_iff_toInt_le, toInt_startOfDay, toInt_startOfDay]
  omega

theorem lt_of_startOfDay_lt (before : t.startOfDay < u.startOfDay) : t < u :=
  Int64.not_le.1 fun after => Int64.not_le.2 before (startOfDay_mono after)

/-! ## Ranges and days -/

/-- A time is in its day. -/
theorem mem_ofDay_startOfDay (t : Timestamp) : (TimeRange.ofDay t.startOfDay).contains t = true := by
  have low := t.le_toInt
  have high := t.toInt_lt
  have first := Int64.le_iff_toInt_le.1 t.startOfDay_le
  have last : t.toInt ≤ (endOfDay t.startOfDay).toInt := by
    have within := t.toInt_sub_startOfDay_lt
    rw [toInt_endOfDay]
    omega
  simp [TimeRange.contains, TimeRange.ofDay, Int64.le_iff_toInt_le, first, last]

end Timestamp

namespace TimeRange

variable {r : TimeRange} {t day : Timestamp}

theorem contains_iff : r.contains t = true ↔ r.first ≤ t ∧ t ≤ r.last := by
  simp [contains]

theorem overlapsDay_iff : r.overlapsDay day = true ↔ r.first ≤ Timestamp.endOfDay day ∧ day ≤ r.last := by
  rw [overlapsDay, overlaps, Bool.and_eq_true, decide_eq_true_iff, decide_eq_true_iff]
  rfl

/-- A range that holds a time overlaps the day of the time. -/
theorem overlapsDay_of_contains (inside : r.contains t = true) : r.overlapsDay t.startOfDay = true := by
  obtain ⟨first, last⟩ := contains_iff.1 inside
  obtain ⟨starts, ends⟩ := contains_iff.1 t.mem_ofDay_startOfDay
  exact overlapsDay_iff.2 ⟨Int64.le_trans first ends, Int64.le_trans starts last⟩

/-- A range that is not empty overlaps a whole day only in times of that day. -/
theorem exists_contains_of_overlapsDay (filled : r.first ≤ r.last) (meets : r.overlapsDay day = true) :
    ∃ t, r.contains t = true ∧ day.toInt ≤ t.toInt ∧ t.toInt < day.toInt + 86400 := by
  obtain ⟨before, after⟩ := overlapsDay_iff.1 meets
  have ends := Timestamp.toInt_endOfDay day
  simp only [contains_iff, Int64.le_iff_toInt_le] at *
  -- The later one of the two starts is in both.
  rcases Int.le_total day.toInt r.first.toInt with late | early
  · exact ⟨r.first, ⟨Int.le_refl _, filled⟩, late, by omega⟩
  · exact ⟨day, ⟨early, after⟩, Int.le_refl _, by omega⟩

end TimeRange

open Timestamp in
/-- A day starts at a multiple of its length or at the least time, not after the times in it and less than its length
before them, and later times have no earlier days. So a range overlaps the day of every time that it holds, a range
that is not empty overlaps a day only in a time of that day, and a time of an earlier day is earlier. Nothing on the
way leaves the words: the remainder is one, and the difference and the sum end at the least and the greatest. -/
theorem days_prune_no_time :
    (∀ t : Timestamp, t.startOfDay ≤ t ∧ t.toInt - t.startOfDay.toInt < daySeconds ∧
      t.startOfDay.startOfDay = t.startOfDay ∧ (daySeconds ∣ t.startOfDay.toInt ∨ t.startOfDay = least)) ∧
    (∀ t u : Timestamp, t ≤ u → t.startOfDay ≤ u.startOfDay) ∧
    (∀ (r : TimeRange) t, r.contains t = true → r.overlapsDay t.startOfDay = true) ∧
    (∀ (r : TimeRange) day, r.first ≤ r.last → daySeconds ∣ day.toInt → r.overlapsDay day = true →
      ∃ t, r.contains t = true ∧ t.startOfDay = day ∧ day.toInt ≤ t.toInt ∧ t.toInt < day.toInt + daySeconds) ∧
    (∀ t cutoff : Timestamp, t.startOfDay < cutoff.startOfDay → t < cutoff) ∧
    (∀ t : Timestamp, ∃ rest : Timestamp, rest.toInt = t.toInt % daySeconds ∧
      t.startOfDay.toInt = max least.toInt (t.toInt - rest.toInt)) ∧
    ∀ day : Timestamp, (endOfDay day).toInt = min greatest.toInt (day.toInt + (daySeconds - 1)) := by
  have lowest : least.toInt = -9223372036854775808 := by decide
  have highest : greatest.toInt = 9223372036854775807 := by decide
  refine ⟨fun t => ⟨t.startOfDay_le, t.toInt_sub_startOfDay_lt, t.startOfDay_startOfDay, t.dvd_startOfDay⟩,
    fun t u => startOfDay_mono, fun r t => TimeRange.overlapsDay_of_contains, fun r day filled aligned meets => ?_,
    fun t cutoff => lt_of_startOfDay_lt, fun t => ?_, fun day => ?_⟩
  · obtain ⟨t, inside, late, early⟩ := TimeRange.exists_contains_of_overlapsDay filled meets
    exact ⟨t, inside, (startOfDay_eq_iff aligned).2 ⟨late, early⟩, late, early⟩
  · have rest : (Int64.ofInt (t.toInt % 86400)).toInt = t.toInt % 86400 :=
      Int64.toInt_ofInt_of_le (by omega) (by omega)
    exact ⟨_, rest, by rw [rest, lowest, toInt_startOfDay]⟩
  · rw [highest, toInt_endOfDay, daySeconds]
    rfl

open Timestamp in
/-- The last day, whose end is cut, and the first one, whose start is. -/
theorem days_prune_no_time_cut :
    let r : TimeRange := ⟨greatest, greatest⟩
    let day := greatest.startOfDay
    (least ≤ greatest ∧ least.startOfDay ≤ day) ∧ (r.contains greatest = true ∧ r.overlapsDay day = true) ∧
    (r.first ≤ r.last ∧ daySeconds ∣ day.toInt ∧
      ∃ t, r.contains t = true ∧ t.startOfDay = day ∧ day.toInt ≤ t.toInt ∧ t.toInt < day.toInt + daySeconds) ∧
    (least.startOfDay < day ∧ least < greatest) := by
  intro r day
  obtain ⟨-, mono, meets, times, earlier, -, -⟩ := days_prune_no_time
  have order : least ≤ greatest := by decide
  have inside : r.contains greatest = true := by decide
  have filled : r.first ≤ r.last := by decide
  have aligned : daySeconds ∣ day.toInt := by decide
  have before : least.startOfDay < day := by decide
  have overlap := meets r greatest inside
  exact ⟨⟨order, mono _ _ order⟩, ⟨inside, overlap⟩, ⟨filled, aligned, times r day filled aligned overlap⟩, before,
    earlier _ _ before⟩

end FlowArchive
