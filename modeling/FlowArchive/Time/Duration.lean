import FlowArchive.Text.Decimal

/-!
# Durations

A span of time in whole nanoseconds, printed in the largest unit of seconds, milliseconds, microseconds and
nanoseconds that it fills, with the digits of the remainder that are needed.
-/

namespace FlowArchive

/-- A span of time. -/
structure Duration where
  nanoseconds : Nat
deriving DecidableEq, Repr, Inhabited

namespace Duration

def ofSeconds (n : Nat) : Duration := ⟨n * 1000000000⟩
def ofMilliseconds (n : Nat) : Duration := ⟨n * 1000000⟩
def ofMicroseconds (n : Nat) : Duration := ⟨n * 1000⟩

/-- The time in whole milliseconds. -/
def milliseconds (d : Duration) : Nat := d.nanoseconds / 1000000

/-- The digits of `rest / 10 ^ places`, of which trailing zeros are left out. -/
def fraction (places rest : Nat) : List Char :=
  let shown := Decimal.digits rest
  let filled := List.replicate (places - shown.length) '0' ++ shown
  (filled.reverse.dropWhile (· == '0')).reverse

/-- A count of units of `10 ^ places` nanoseconds, with its remainder behind a point. -/
def inUnits (places n : Nat) (unit : String) : String :=
  let whole := Decimal.text (n / Nat.pow 10 places)
  let rest := n % Nat.pow 10 places
  if rest = 0 then whole ++ unit
  else whole ++ "." ++ String.ofList (fraction places rest) ++ unit

def text (d : Duration) : String :=
  let n := d.nanoseconds
  if 1000000000 ≤ n then inUnits 9 n "s"
  else if 1000000 ≤ n then inUnits 6 n "ms"
  else if 1000 ≤ n then inUnits 3 n "µs"
  else inUnits 0 n "ns"

end Duration

end FlowArchive
