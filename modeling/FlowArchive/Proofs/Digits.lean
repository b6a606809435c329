import FlowArchive.Text.Blank
import FlowArchive.Text.Case
import FlowArchive.Text.Decimal
import Mathlib.Algebra.GroupWithZero.Nat
import Mathlib.Data.List.TakeWhile

/-!
# Digits

What readers need to know of printed numbers: of which characters they consist, where they begin and end, and how long
they are.
-/

namespace FlowArchive.Decimal

variable {a c : Char} {n : Nat} {rest : List Char}

/-! ## Single digits -/

theorem exists_digitChar (digit : isDigit c = true) : ∃ d < 10, c = digitChar d := by
  simp only [isDigit, Bool.and_eq_true, decide_eq_true_eq] at digit
  have lower : '0'.toNat ≤ c.toNat := digit.1
  have upper : c.toNat ≤ '9'.toNat := digit.2
  have ends : '0'.toNat = 48 ∧ '9'.toNat = 57 := ⟨rfl, rfl⟩
  refine ⟨c.toNat - 48, by omega, ?_⟩
  rw [digitChar, show 48 + (c.toNat - 48) = c.toNat by omega, Char.ofNat_toNat]

theorem not_isBlank_of_isDigit (digit : isDigit c = true) : Text.isBlank c = false := by
  obtain ⟨d, small, rfl⟩ := exists_digitChar digit
  exact (by decide : ∀ d < 10, Text.isBlank (digitChar d) = false) d small

theorem lowerAscii_of_isDigit (digit : isDigit c = true) : Text.lowerAscii c = c := by
  obtain ⟨d, small, rfl⟩ := exists_digitChar digit
  exact (by decide : ∀ d < 10, Text.lowerAscii (digitChar d) = digitChar d) d small

theorem ne_of_isDigit (digit : isDigit c = true) (other : isDigit a = false) : c ≠ a := by
  rintro rfl
  rw [digit] at other
  cases other

/-! ## Rows of digits -/

theorem isDigit_of_mem_digits {n : Nat} {c : Char} (member : c ∈ digits n) : isDigit c = true :=
  List.all_eq_true.1 (all_isDigit_digits n) c member

/-- No zero stands in front. -/
theorem head_digits {n : Nat} (positive : n ≠ 0) : (digits n).head? ≠ some '0' := by
  fun_induction digits n with
  | case1 n small =>
    have cases : n = 1 ∨ n = 2 ∨ n = 3 ∨ n = 4 ∨ n = 5 ∨ n = 6 ∨ n = 7 ∨ n = 8 ∨ n = 9 := by omega
    rcases cases with rfl | rfl | rfl | rfl | rfl | rfl | rfl | rfl | rfl <;> decide
  | case2 n large ih =>
    have front := ih (by omega)
    cases shown : digits (n / 10) with
    | nil => exact absurd shown (digits_ne_nil _)
    | cons c s => rwa [shown] at front

theorem first_digit (n : Nat) : ∃ c s, digits n = c :: s ∧ isDigit c = true := by
  cases shown : digits n with
  | nil => exact absurd shown (digits_ne_nil n)
  | cons c s => exact ⟨c, s, rfl, isDigit_of_mem_digits (shown ▸ List.mem_cons_self)⟩

theorem length_digits_le {places : Nat} (positive : 0 < places) (small : n < 10 ^ places) :
    (digits n).length ≤ places := by
  fun_induction digits n generalizing places with
  | case1 n short => exact positive
  | case2 n long ih =>
    obtain ⟨k, rfl⟩ : ∃ k, places = k + 1 := ⟨places - 1, by omega⟩
    have more : 0 < k := by
      rcases Nat.eq_zero_or_pos k with rfl | more
      · omega
      · exact more
    have front := ih more (by rw [Nat.pow_succ] at small; omega)
    simpa using front

/-- Zeros in front do not count. -/
theorem value_zeros (k : Nat) (s : List Char) : value (List.replicate k '0' ++ s) = value s := by
  induction k with
  | zero => rfl
  | succ k ih =>
    rw [List.replicate_succ, List.cons_append, ← ih]
    rfl

/-- A row of at least one digit is read, and nothing else is. -/
theorem readNat?_eq_some_iff {s : List Char} {n : Nat} :
    readNat? s = some n ↔ s ≠ [] ∧ (∀ c ∈ s, isDigit c = true) ∧ n = value s := by
  rw [readNat?]
  split
  next refused =>
    simp only [Bool.or_eq_true, List.isEmpty_iff, Bool.not_eq_true', List.all_eq_false] at refused
    grind
  next read =>
    simp only [Bool.or_eq_true, List.isEmpty_iff, Bool.not_eq_true', List.all_eq_false, not_or] at read
    grind

/-- A printed number is taken whole from the front of what does not begin with a digit. -/
theorem takeWhile_digits (stops : ∀ c ∈ rest.head?, isDigit c = false) :
    (digits n ++ rest).takeWhile isDigit = digits n ∧ (digits n ++ rest).dropWhile isDigit = rest := by
  have shown : ∀ c ∈ digits n, isDigit c = true := fun _ => isDigit_of_mem_digits
  have nothing : rest.takeWhile isDigit = [] ∧ rest.dropWhile isDigit = rest := by
    cases rest with
    | nil => exact ⟨rfl, rfl⟩
    | cons c rest => simp [stops c rfl]
  rw [List.takeWhile_append_of_pos shown, List.dropWhile_append_of_pos shown, nothing.1, nothing.2, List.append_nil]
  exact ⟨rfl, rfl⟩

/-- A printed number is read back if it is not above the bound. -/
theorem readBounded?_digits {bound : Nat} (small : n ≤ bound) : readBounded? bound (digits n) = some n := by
  obtain ⟨c, s, shown, digit⟩ := first_digit n
  have read := readNat?_digits n
  rw [readBounded?, read]
  · simp [small]
  · rintro s' plus
    rw [plus] at shown
    exact absurd (List.cons.inj shown).1.symm (ne_of_isDigit digit (by decide))

@[simp] theorem readUInt16?_text (n : UInt16) : readUInt16? (text n.toNat) = some n := by
  rw [readUInt16?, text, String.toList_ofList, readBounded?_digits (Nat.le_of_lt_succ n.toNat_lt), Option.map_some,
    UInt16.ofNat_toNat]

@[simp] theorem readUInt8?_text (n : UInt8) : readUInt8? (text n.toNat) = some n := by
  rw [readUInt8?, text, String.toList_ofList, readBounded?_digits (Nat.le_of_lt_succ n.toNat_lt), Option.map_some,
    UInt8.ofNat_toNat]

end FlowArchive.Decimal
