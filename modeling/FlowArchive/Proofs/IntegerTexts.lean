import FlowArchive.Proofs.Digits
import Mathlib.Data.List.Basic
import Mathlib.Data.List.Induction

/-!
# Texts of integers

An integer is spelled by many texts, as signs and zeros in front may be superfluous, and one of them is canonical. All
that spell it are read as it, and the canonical one is printed.
-/

namespace FlowArchive.Decimal

variable {s : List Char} {i j lo hi : Int} {n : Nat}

/-- A row of at least one digit. -/
structure IsRow (s : List Char) : Prop where
  filled : s ≠ []
  ascii : ∀ c ∈ s, isDigit c = true

/-- A text spells an integer with a row of digits for its size, which may have a sign in front. -/
inductive Spells : List Char → Int → Prop where
  | plain {s : List Char} (row : IsRow s) : Spells s (value s)
  | plus {s : List Char} (row : IsRow s) : Spells ('+' :: s) (value s)
  | minus {s : List Char} (row : IsRow s) : Spells ('-' :: s) (-value s)

/-- The canonical text of an integer begins with zero only if it is that of zero, and its one sign is the minus of the
negative integers. -/
inductive Canonical : List Char → Int → Prop where
  | zero : Canonical ['0'] 0
  | positive {s : List Char} (row : IsRow s) (front : s.head? ≠ some '0') : Canonical s (value s)
  | negative {s : List Char} (row : IsRow s) (front : s.head? ≠ some '0') : Canonical ('-' :: s) (-value s)

theorem isRow_digits (n : Nat) : IsRow (digits n) := ⟨digits_ne_nil n, fun _ => isDigit_of_mem_digits⟩

theorem not_isRow_sign {c : Char} (sign : isDigit c = false) : ¬ IsRow (c :: s) := by
  intro row
  have digit := row.ascii c List.mem_cons_self
  rw [sign] at digit
  cases digit

/-! ## Spelled integers -/

theorem spells_minus_iff : Spells ('-' :: s) i ↔ IsRow s ∧ i = -value s := by
  constructor
  · intro spells
    cases spells with
    | plain row => exact absurd row (not_isRow_sign (by decide))
    | minus row => exact ⟨row, rfl⟩
  · rintro ⟨row, rfl⟩
    exact .minus row

theorem spells_plus_iff : Spells ('+' :: s) i ↔ IsRow s ∧ i = value s := by
  constructor
  · intro spells
    cases spells with
    | plain row => exact absurd row (not_isRow_sign (by decide))
    | plus row => exact ⟨row, rfl⟩
  · rintro ⟨row, rfl⟩
    exact .plus row

theorem spells_unsigned_iff (noMinus : ∀ t, s ≠ '-' :: t) (noPlus : ∀ t, s ≠ '+' :: t) :
    Spells s i ↔ IsRow s ∧ i = value s := by
  constructor
  · intro spells
    cases spells with
    | plain row => exact ⟨row, rfl⟩
    | plus row => exact absurd rfl (noPlus _)
    | minus row => exact absurd rfl (noMinus _)
  · rintro ⟨row, rfl⟩
    exact .plain row

/-- The texts that are read as an integer are those that spell it, if it is within the bounds. -/
theorem readInt?_eq_some_iff : readInt? lo hi s = some i ↔ Spells s i ∧ lo ≤ i ∧ i ≤ hi := by
  have size (t : List Char) (m : Int) :
      (do let n ← readNat? t; pure (n : Int)) = some m ↔ IsRow t ∧ m = value t := by
    simp only [Option.bind_eq_bind, Option.pure_def, Option.bind_eq_some_iff, readNat?_eq_some_iff, Option.some.injEq]
    constructor
    · rintro ⟨n, ⟨filled, ascii, rfl⟩, rfl⟩
      exact ⟨⟨filled, ascii⟩, rfl⟩
    · rintro ⟨row, rfl⟩
      exact ⟨value t, ⟨row.filled, row.ascii, rfl⟩, rfl⟩
  unfold readInt?
  split
  next rest =>
    simp only [Option.filter_eq_some_iff, Option.map_eq_some_iff, size, spells_minus_iff]
    grind
  next rest =>
    simp only [Option.filter_eq_some_iff, Option.map_eq_some_iff, size, spells_plus_iff]
    grind
  next noMinus noPlus =>
    simp only [Option.filter_eq_some_iff, Option.map_eq_some_iff, size, spells_unsigned_iff noMinus noPlus]
    grind

/-- A text spells one integer at most: what is read within bounds that hold both is both. -/
theorem Spells.unique (first : Spells s i) (second : Spells s j) : i = j := by
  have one := readInt?_eq_some_iff.2 ⟨first, Int.min_le_left i j, Int.le_max_left i j⟩
  have other := readInt?_eq_some_iff.2 ⟨second, Int.min_le_right i j, Int.le_max_right i j⟩
  exact Option.some.inj (one.symm.trans other)

/-! ## Canonical texts -/

theorem digits_zero : digits 0 = ['0'] := by
  rw [digits]
  rfl

theorem ne_zero_of_head_digits (front : (digits n).head? ≠ some '0') : n ≠ 0 := by
  rintro rfl
  exact front (by rw [digits_zero, List.head?_cons])

/-- A row of digits without a zero in front is what is printed for its value. -/
theorem digits_value (row : IsRow s) (front : s.head? ≠ some '0') : digits (value s) = s := by
  induction s using List.reverseRecOn with
  | nil => exact absurd rfl row.filled
  | append_singleton s c ih =>
    obtain ⟨d, small, rfl⟩ := exists_digitChar (row.ascii c (by simp))
    rw [value_append_digit, digitValue_digitChar small]
    by_cases single : s = []
    · subst single
      rw [show 10 * value [] + d = d by simp [value], digits, if_pos small, List.nil_append]
    · -- The digits before the last have no zero in front either, so that there is something to carry.
      have front' : s.head? ≠ some '0' := by rwa [List.head?_append_of_ne_nil _ single] at front
      have shown := ih ⟨single, fun c member => row.ascii c (List.mem_append_left _ member)⟩ front'
      have positive : value s ≠ 0 := ne_zero_of_head_digits (by rwa [shown])
      rw [digits, if_neg (by omega), show (10 * value s + d) / 10 = value s by omega,
        show (10 * value s + d) % 10 = d by omega, shown]

theorem printInt_natCast (n : Nat) : printInt n = digits n := by
  rw [printInt, if_neg (by omega), Int.natAbs_natCast]

theorem printInt_zero : printInt 0 = ['0'] := (printInt_natCast 0).trans digits_zero

theorem printInt_neg_natCast (positive : n ≠ 0) : printInt (-n) = '-' :: digits n := by
  rw [printInt, if_pos (by omega), Int.natAbs_neg, Int.natAbs_natCast]

/-- Canonical texts are those that are printed. -/
theorem canonical_iff : Canonical s i ↔ s = printInt i := by
  constructor
  · intro canonical
    cases canonical with
    | zero => rw [printInt_zero]
    | positive row front => rw [printInt_natCast, digits_value row front]
    | negative row front =>
      have shown := digits_value row front
      rw [printInt_neg_natCast (ne_zero_of_head_digits (by rwa [shown])), shown]
  · rintro rfl
    rcases eq_or_ne i 0 with rfl | other
    · rw [printInt_zero]
      exact .zero
    · obtain ⟨n, rfl | rfl⟩ := i.eq_nat_or_neg
      · have text := Canonical.positive (isRow_digits n) (head_digits (by omega))
        rwa [value_digits, ← printInt_natCast] at text
      · have text := Canonical.negative (isRow_digits n) (head_digits (by omega))
        rwa [value_digits, ← printInt_neg_natCast (by omega)] at text

theorem Canonical.spells (canonical : Canonical s i) : Spells s i := by
  cases canonical with
  | zero =>
    have row : IsRow ['0'] := digits_zero ▸ isRow_digits 0
    exact .plain row
  | positive row front => exact .plain row
  | negative row front => exact .minus row

/-- Nothing follows a zero in front. -/
theorem Canonical.eq_nil (canonical : Canonical ('0' :: s) i) : s = [] := by
  cases canonical with
  | zero => rfl
  | positive row front => exact absurd rfl front

theorem not_canonical_minus_zero : ¬ Canonical ('-' :: '0' :: s) i := by
  intro canonical
  cases canonical with
  | positive row front => exact not_isRow_sign (by decide) row
  | negative row front => exact front rfl

/-- The text of a number is read back as the number. -/
theorem readInt?_printInt (low : lo ≤ i) (high : i ≤ hi) : readInt? lo hi (printInt i) = some i :=
  readInt?_eq_some_iff.2 ⟨(canonical_iff.2 rfl).spells, low, high⟩

/-! ## Characters of printed integers -/

theorem mem_printInt {i : Int} {c : Char} (member : c ∈ printInt i) : c = '-' ∨ isDigit c = true := by
  unfold printInt at member
  split at member
  · rcases List.mem_cons.1 member with same | digit
    · exact .inl same
    · exact .inr (isDigit_of_mem_digits digit)
  · exact .inr (isDigit_of_mem_digits member)

theorem printInt_ne_nil (i : Int) : printInt i ≠ [] := by
  unfold printInt
  split
  · simp
  · exact digits_ne_nil _

/-- The text of a number is no text that begins with neither a sign nor a digit. -/
theorem textInt_append_ne (i : Int) (ending : String) {s : String}
    (other : s.toList.head?.all (fun c => c != '-' && !isDigit c) = true) : textInt i ++ ending ≠ s := by
  rintro rfl
  obtain ⟨c, rest, shown⟩ := List.exists_cons_of_ne_nil (printInt_ne_nil i)
  rw [String.toList_append, textInt, String.toList_ofList, shown, List.cons_append, List.head?_cons,
    Option.all_some] at other
  rcases mem_printInt (shown ▸ List.mem_cons_self) with rfl | digit
  · exact absurd other (by decide)
  · simp [digit] at other

end FlowArchive.Decimal
