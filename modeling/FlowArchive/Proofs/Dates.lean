import FlowArchive.Time.Calendar
import Mathlib.Algebra.GroupWithZero.Nat

/-!
# Dates and numbers of days

Every number of days has a date of the calendar, and counting the days of that date gives the number back. Years and
months are found by their lengths, which add up to the days before the next year.
-/

namespace FlowArchive.Date

variable {n : Int} {year : Int} {leap : Bool}

/-! ## Years -/

/-- The days of a year. -/
def yearLength (leap : Bool) : Nat := if leap then 366 else 365

theorem isLeap_iff (year : Int) : isLeap year = true ↔ year % 4 = 0 ∧ (year % 100 ≠ 0 ∨ year % 400 = 0) := by
  simp [isLeap]

theorem daysBeforeYear_succ (year : Int) : daysBeforeYear (year + 1) = daysBeforeYear year + yearLength (isLeap year) := by
  unfold daysBeforeYear yearLength
  split
  next leap =>
    have parts := (isLeap_iff year).1 leap
    omega
  next common =>
    have parts := mt (isLeap_iff year).2 common
    omega

/-- A day lies in the year that is found for it. -/
theorem yearOfDays_bounds (n : Int) :
    daysBeforeYear (yearOfDays n) ≤ n ∧ n < daysBeforeYear (yearOfDays n + 1) := by
  have near : daysBeforeYear (n * 400 / 146097 - 1) ≤ n ∧ n < daysBeforeYear (n * 400 / 146097 + 2) := by
    unfold daysBeforeYear
    omega
  unfold yearOfDays
  dsimp only
  split
  next early => exact ⟨near.1, by rwa [Int.sub_add_cancel]⟩
  next reached =>
    split
    next late => exact ⟨late, by rw [Int.add_assoc]; exact near.2⟩
    next within => exact ⟨Int.not_lt.1 reached, Int.not_le.1 within⟩

theorem daysBeforeYear_mono {a b : Int} (ordered : a ≤ b) : daysBeforeYear a ≤ daysBeforeYear b := by
  unfold daysBeforeYear
  omega

/-! ## Months -/

/-- The first days and lengths of months add up. -/
theorem splitMonths_spec (lengths : List Nat) (month rest : Nat) (inside : rest < lengths.sum) :
    ∃ i, i < lengths.length ∧ (splitMonths lengths month rest).1 = month + i ∧
      1 ≤ (splitMonths lengths month rest).2 ∧ (splitMonths lengths month rest).2 ≤ lengths.getD i 0 ∧
      (lengths.take i).sum + (splitMonths lengths month rest).2 = rest + 1 := by
  induction lengths generalizing month rest with
  | nil => simp at inside
  | cons n lengths ih =>
    rw [splitMonths]
    split
    next here => exact ⟨0, by simp, rfl, by simp, here, by simp⟩
    next beyond =>
      obtain ⟨i, bound, found, positive, short, total⟩ := ih (month + 1) (rest - n) (by simp at inside; omega)
      refine ⟨i + 1, by simpa using bound, by omega, positive, by simpa using short, ?_⟩
      rw [List.take_succ_cons, List.sum_cons]
      omega

theorem sum_monthLengths (leap : Bool) : (monthLengths leap).sum = yearLength leap := by
  cases leap <;> rfl

theorem daysBeforeMonth_eq (leap : Bool) (month : Nat) :
    daysBeforeMonth leap month = ((monthLengths leap).take (month - 1)).sum := by
  rw [daysBeforeMonth, List.sum_eq_foldl]

theorem monthLength_le (leap : Bool) (i : Nat) : (monthLengths leap).getD i 0 ≤ 31 := by
  rw [List.getD_eq_getElem?_getD]
  cases found : (monthLengths leap)[i]? with
  | none => exact Nat.zero_le 31
  | some n =>
    have all : ∀ n ∈ monthLengths leap, n ≤ 31 := by cases leap <;> decide
    exact all n (List.mem_of_getElem? found)

/-! ## Dates -/

@[simp] theorem year_ofDays (n : Int) : (ofDays n).year = yearOfDays n := rfl

/-- The date of a number of days exists, and it is that many days after the start. -/
theorem ofDays_spec (n : Int) : 1 ≤ (ofDays n).month ∧ (ofDays n).month ≤ 12 ∧ 1 ≤ (ofDays n).day ∧
    (ofDays n).day ≤ (monthLengths (isLeap (ofDays n).year)).getD ((ofDays n).month - 1) 0 ∧
    (ofDays n).toDays = n := by
  obtain ⟨first, last⟩ := yearOfDays_bounds n
  rw [daysBeforeYear_succ] at last
  have inside : (n - daysBeforeYear (yearOfDays n)).toNat < (monthLengths (isLeap (yearOfDays n))).sum := by
    rw [sum_monthLengths]
    omega
  obtain ⟨i, bound, month, positive, short, total⟩ := splitMonths_spec _ 1 _ inside
  have twelve : (monthLengths (isLeap (yearOfDays n))).length = 12 := rfl
  have place : (ofDays n).month = 1 + i := month
  have back : (ofDays n).month - 1 = i := by omega
  refine ⟨by omega, by omega, positive, ?_, ?_⟩
  · rw [back]
    exact short
  · have counted : ((monthLengths (isLeap (yearOfDays n))).take i).sum + (ofDays n).day =
        (n - daysBeforeYear (yearOfDays n)).toNat + 1 := total
    rw [toDays, daysBeforeMonth_eq, back, year_ofDays]
    omega

theorem toDays_ofDays (n : Int) : (ofDays n).toDays = n := (ofDays_spec n).2.2.2.2

/-- The dates of the years that the calendar covers are valid. -/
theorem isValid_ofDays (after : firstYear ≤ yearOfDays n) (before : yearOfDays n ≤ lastYear) :
    (ofDays n).isValid = true := by
  obtain ⟨month, month', day, day', -⟩ := ofDays_spec n
  simp only [isValid, Bool.and_eq_true, decide_eq_true_eq]
  exact ⟨⟨⟨⟨⟨after, before⟩, month⟩, month'⟩, day⟩, day'⟩

theorem daysBeforeMonth_le (leap : Bool) (month : Nat) : daysBeforeMonth leap month ≤ 366 := by
  have whole := congrArg List.sum (List.take_append_drop (month - 1) (monthLengths leap))
  rw [List.sum_append, sum_monthLengths, yearLength] at whole
  rw [daysBeforeMonth_eq]
  split at whole <;> omega

/-- The days of the years that are written with four digits. -/
theorem toDays_bounds {d : Date} (valid : d.isValid = true) (years : 0 ≤ d.year ∧ d.year ≤ 9999) :
    0 ≤ d.toDays ∧ d.toDays ≤ 3653000 := by
  simp only [isValid, Bool.and_eq_true, decide_eq_true_eq] at valid
  obtain ⟨⟨-, dayFirst⟩, dayLast⟩ := valid
  have month := daysBeforeMonth_le (isLeap d.year) d.month
  have longest := monthLength_le (isLeap d.year) (d.month - 1)
  have lower : daysBeforeYear 0 ≤ daysBeforeYear d.year := daysBeforeYear_mono years.1
  have upper : daysBeforeYear d.year ≤ daysBeforeYear 9999 := daysBeforeYear_mono years.2
  have ends : daysBeforeYear 0 = 0 ∧ daysBeforeYear 9999 = 3652060 := by decide
  rw [toDays]
  omega

end FlowArchive.Date
