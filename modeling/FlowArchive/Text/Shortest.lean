import FlowArchive.Text.Decimal

/-!
# Floating-point numbers in decimal

A finite number of double precision is a whole number times a power of two. It is printed in two ways: with
the fewest digits that are read back as the same number, and rounded to two places.
-/

namespace FlowArchive.Decimal

/-- The size of a finite number: `mantissa * 2 ^ exponent`. -/
structure Binary where
  mantissa : Nat
  exponent : Int
deriving DecidableEq, Repr

namespace Binary

/-- The leading bit of the mantissa of a number of normal size, which its bits leave out. -/
def hiddenBit : Nat := 0x10000000000000

def exponentField (bits : UInt64) : Nat := bits.toNat / hiddenBit % 2048

def fractionField (bits : UInt64) : Nat := bits.toNat % hiddenBit

/-- The size that the bits of a finite number stand for. -/
def ofBits (bits : UInt64) : Binary :=
  if exponentField bits = 0 then ⟨fractionField bits, -1074⟩
  else ⟨fractionField bits + hiddenBit, (exponentField bits : Int) - 1075⟩

/-- A nonnegative fraction. -/
structure Ratio where
  num : Nat
  den : Nat
deriving DecidableEq, Repr

/-- A number times a power of two. -/
def scaled (n : Nat) (exponent : Int) : Ratio :=
  if 0 ≤ exponent then ⟨n * Nat.pow 2 exponent.toNat, 1⟩ else ⟨n, Nat.pow 2 (-exponent).toNat⟩

/-- Whether `c * 10 ^ e` is below a fraction. -/
def decimalLt (c : Nat) (e : Int) (r : Ratio) : Bool :=
  if 0 ≤ e then c * Nat.pow 10 e.toNat * r.den < r.num else c * r.den < r.num * Nat.pow 10 (-e).toNat

/-- Whether a fraction is below `c * 10 ^ e`. -/
def ltDecimal (r : Ratio) (c : Nat) (e : Int) : Bool :=
  if 0 ≤ e then r.num < c * Nat.pow 10 e.toNat * r.den else r.num * Nat.pow 10 (-e).toNat < c * r.den

/-- The greatest `c` with `c * 10 ^ e` at most the fraction. -/
def floorAt (r : Ratio) (e : Int) : Nat :=
  if 0 ≤ e then r.num / (Nat.pow 10 e.toNat * r.den) else r.num * Nat.pow 10 (-e).toNat / r.den

/-- The numbers halfway to the neighbours of a number. The lower neighbour of a power of two is closer. -/
def halfways (b : Binary) : Ratio × Ratio :=
  let below := if b.mantissa = hiddenBit ∧ -1074 < b.exponent then 4 * b.mantissa - 1 else 4 * b.mantissa - 2
  (scaled below (b.exponent - 2), scaled (4 * b.mantissa + 2) (b.exponent - 2))

/-- Whether `c * 10 ^ e` is read as the number: it lies between the halfway numbers, which themselves are read
as the neighbour with an even mantissa. -/
def readsAs (b : Binary) (c : Nat) (e : Int) : Bool :=
  let (low, high) := b.halfways
  if b.mantissa % 2 = 0 then !decimalLt c e low && !ltDecimal high c e
  else ltDecimal low c e && decimalLt c e high

def ratio (b : Binary) : Ratio := scaled b.mantissa b.exponent

/-- How many zeros follow the point of a fraction below 1, which is at least `10 ^ -400`. -/
def leadingZeros (r : Ratio) : Nat :=
  ((List.range 400).takeWhile fun i => r.num * Nat.pow 10 (i + 1) < r.den).length

/-- The place of the first digit of a fraction: the greatest `e` with `10 ^ e` at most the fraction. -/
def leadingPlace (r : Ratio) : Int :=
  if r.den ≤ r.num then ((Decimal.digits (r.num / r.den)).length : Int) - 1
  else -(leadingZeros r + 1 : Nat)

/-- The better of a number of units and the next number that are read as `b`: the nearer, and of two equally
near ones the even. -/
def nearest? (b : Binary) (e : Int) : Option Nat :=
  let c := floorAt b.ratio e
  match b.readsAs c e, b.readsAs (c + 1) e with
  | false, false => none
  | true, false => some c
  | false, true => some (c + 1)
  | true, true =>
    let twice : Ratio := ⟨2 * b.ratio.num, b.ratio.den⟩
    if ltDecimal twice (2 * c + 1) e then some c
    else if decimalLt (2 * c + 1) e twice then some (c + 1)
    else if c % 2 = 0 then some c
    else some (c + 1)

/-- The shortest decimal that is read as a positive number: `c * 10 ^ e`. Seventeen digits always suffice. -/
def shortest (b : Binary) : Nat × Int :=
  let lead := leadingPlace b.ratio
  let found := (List.range 17).findSome? fun (n : Nat) =>
    let e := lead - n
    (b.nearest? e).map fun c => (c, e)
  found.getD (0, 0)

end Binary

/-- Splits off the zeros at the end of a row of digits. -/
def dropZeros (s : List Char) : List Char × Nat :=
  let shown := (s.reverse.dropWhile (· == '0')).reverse
  (shown, s.length - shown.length)

/-- An integer with its sign, whichever it is. -/
def printSigned (i : Int) : List Char := if 0 ≤ i then '+' :: printInt i else printInt i

/-- Writes a row of digits whose last stands at place `e`. The point is shown between the places 16 and -5;
other numbers are written with a power of ten, which has a sign. -/
def placePoint (s : List Char) (e : Int) : List Char :=
  let point := s.length + e
  if 0 ≤ e ∧ point ≤ 16 then s ++ List.replicate e.toNat '0' ++ ['.', '0']
  else if 0 < point ∧ point ≤ 16 then s.take point.toNat ++ '.' :: s.drop point.toNat
  else if -5 < point ∧ point ≤ 0 then ['0', '.'] ++ List.replicate (-point).toNat '0' ++ s
  else
    let power := 'e' :: printSigned (point - 1)
    match s with
    | [] => power
    | [d] => d :: power
    | d :: rest => d :: '.' :: rest ++ power

/-- Whether a number has the sign bit. -/
def isNegative (x : Float) : Bool := 0x8000000000000000 ≤ x.toBits.toNat

/-- A sign in front of the text of a number's size. -/
def signed (x : Float) (s : List Char) : List Char := if isNegative x then '-' :: s else s

/-- The fewest digits that are read back as a finite number. -/
def printShortest (x : Float) : List Char :=
  let b := Binary.ofBits x.toBits
  if b.mantissa = 0 then signed x ['0', '.', '0']
  else
    let (c, e) := b.shortest
    let (shown, zeros) := dropZeros (digits c)
    signed x (placePoint shown (e + zeros))

/-- A quotient rounded to the nearest number; a half goes to the even neighbour. -/
def roundHalfEven (num den : Nat) : Nat :=
  let q := num / den
  let twice := 2 * (num % den)
  if twice < den then q else if den < twice then q + 1 else q + q % 2

/-- A number with two places behind the point. -/
def printHundredths (x : Float) : List Char :=
  if x.isNaN then ['N', 'a', 'N']
  else if x.isInf then signed x ['i', 'n', 'f']
  else
    let r := (Binary.ofBits x.toBits).ratio
    let n := roundHalfEven (r.num * 100) r.den
    signed x (digits (n / 100) ++ ['.'] ++ digits (n / 10 % 10) ++ digits (n % 10))

end FlowArchive.Decimal
