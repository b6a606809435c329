/-!
# Hexadecimal numbers

Numbers in base sixteen are printed in small letters without leading zeros; capitals are read as well.
-/

namespace FlowArchive.Text

/-- The digits of a number in base sixteen. -/
def hexDigits (n : Nat) : List Char :=
  if n < 16 then [Nat.digitChar n] else hexDigits (n / 16) ++ [Nat.digitChar (n % 16)]

/-- The number that a hexadecimal digit stands for. -/
def hexValue? (c : Char) : Option Nat :=
  if '0' ≤ c ∧ c ≤ '9' then some (c.toNat - 48)
  else if 'a' ≤ c ∧ c ≤ 'f' then some (c.toNat - 87)
  else if 'A' ≤ c ∧ c ≤ 'F' then some (c.toNat - 55)
  else none

/-- The number that a row of hexadecimal digits stands for. -/
def hexNumber (s : List Char) : Nat := s.foldl (fun n c => 16 * n + (hexValue? c).getD 0) 0

end FlowArchive.Text
