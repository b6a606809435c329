/-!
# Decimal integers

Printing and reading of integers in base ten. What is printed has no superfluous zeros and no plus sign; what
is read may have both.
-/

namespace FlowArchive.Decimal

/-- The digit of a number below ten. -/
def digitChar (d : Nat) : Char := Char.ofNat (48 + d)

def isDigit (c : Char) : Bool := '0' ≤ c && c ≤ '9'

/-- The number that a digit stands for. -/
def digitValue (c : Char) : Nat := c.toNat - 48

/-- The digits of a natural number, most significant first. -/
def digits (n : Nat) : List Char :=
  if n < 10 then [digitChar n] else digits (n / 10) ++ [digitChar (n % 10)]

/-- The text of an integer: a minus sign if it is negative, and the digits of its size. -/
def printInt (i : Int) : List Char :=
  if i < 0 then '-' :: digits i.natAbs else digits i.natAbs

/-- The number that a row of digits stands for. -/
def value (s : List Char) : Nat := s.foldl (fun n c => 10 * n + digitValue c) 0

/-- Reads a row of at least one digit. -/
def readNat? (s : List Char) : Option Nat :=
  if s.isEmpty || !s.all isDigit then none else some (value s)

/-- Reads digits with an optional plus sign, up to a bound. -/
def readBounded? (bound : Nat) (s : List Char) : Option Nat :=
  let body := match s with
    | '+' :: rest => rest
    | _ => s
  (readNat? body).filter (· ≤ bound)

/-- Reads digits with an optional sign, within `lo` to `hi`. -/
def readInt? (lo hi : Int) (s : List Char) : Option Int :=
  let number : Option Int := match s with
    | '-' :: rest => (readNat? rest).map fun n => -(n : Int)
    | '+' :: rest => (readNat? rest).map fun n => (n : Int)
    | _ => (readNat? s).map fun n => (n : Int)
  number.filter fun i => lo ≤ i && i ≤ hi

/-- Reads an unsigned integer of at most eight bits. -/
def readUInt8? (s : String) : Option UInt8 := (readBounded? 255 s.toList).map UInt8.ofNat

/-- Reads an unsigned integer of at most sixteen bits. -/
def readUInt16? (s : String) : Option UInt16 := (readBounded? 65535 s.toList).map UInt16.ofNat

/-- Reads an unsigned integer of at most sixty-four bits. -/
def readUInt64? (s : List Char) : Option UInt64 := (readBounded? 18446744073709551615 s).map UInt64.ofNat

/-- Reads a signed integer of at most sixty-four bits. -/
def readInt64? (s : List Char) : Option Int64 := 
  (readInt? (-9223372036854775808) 9223372036854775807 s).map Int64.ofInt

/-- The text of a natural number. -/
def text (n : Nat) : String := String.ofList (digits n)

/-- The text of an integer. -/
def textInt (i : Int) : String := String.ofList (printInt i)

/-! ## What is printed reads back -/

theorem digitValue_digitChar {d : Nat} (h : d < 10) : digitValue (digitChar d) = d := by
  have : d = 0 ∨ d = 1 ∨ d = 2 ∨ d = 3 ∨ d = 4 ∨ d = 5 ∨ d = 6 ∨ d = 7 ∨ d = 8 ∨ d = 9 := by omega
  rcases this with rfl | rfl | rfl | rfl | rfl | rfl | rfl | rfl | rfl | rfl <;> rfl

theorem isDigit_digitChar {d : Nat} (h : d < 10) : isDigit (digitChar d) := by
  have : d = 0 ∨ d = 1 ∨ d = 2 ∨ d = 3 ∨ d = 4 ∨ d = 5 ∨ d = 6 ∨ d = 7 ∨ d = 8 ∨ d = 9 := by omega
  rcases this with rfl | rfl | rfl | rfl | rfl | rfl | rfl | rfl | rfl | rfl <;> decide

theorem value_append_digit (s : List Char) (c : Char) : value (s ++ [c]) = 10 * value s + digitValue c := by
  simp [value, List.foldl_append]

theorem value_digits (n : Nat) : value (digits n) = n := by
  fun_induction digits n with
  | case1 n small => simp [value, digitValue_digitChar small]
  | case2 n large ih => rw [value_append_digit, ih, digitValue_digitChar (by omega)]; omega

theorem digits_ne_nil (n : Nat) : digits n ≠ [] := by
  rw [digits]; split <;> simp

theorem all_isDigit_digits (n : Nat) : (digits n).all isDigit := by
  fun_induction digits n with
  | case1 n small => simp [isDigit_digitChar small]
  | case2 n large ih => simp [ih, isDigit_digitChar (show n % 10 < 10 by omega)]

theorem readNat?_digits (n : Nat) : readNat? (digits n) = some n := by
  have filled : (digits n).isEmpty = false := by simp [digits_ne_nil]
  simp [readNat?, filled, all_isDigit_digits, value_digits]

end FlowArchive.Decimal
