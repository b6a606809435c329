import FlowArchive.Text.Decimal
import FlowArchive.Text.Digit
import FlowArchive.Time.Flaw
import FlowArchive.Time.Timestamp

/-!
# Relative times

A relative time is a minus sign and parts of a number and a unit, such as `-15d:04h:05m`. It lies before the
present by the sum of its parts, each unit of which may be given once.
-/

namespace FlowArchive

inductive TimeUnit where
  | day
  | hour
  | minute
deriving DecidableEq, Repr

namespace TimeUnit

def letter : TimeUnit → Char
  | day => 'd'
  | hour => 'h'
  | minute => 'm'

def ofLetter? : Char → Option TimeUnit
  | 'd' => some day
  | 'h' => some hour
  | 'm' => some minute
  | _ => none

def seconds : TimeUnit → Nat
  | day => 86400
  | hour => 3600
  | minute => 60

end TimeUnit

namespace TimeArgument

/-- A part of a relative time: the characters of a number, and a unit. -/
structure RelativePart where
  digits : List Char
  unit : TimeUnit
deriving DecidableEq, Repr

/-- Splits a text into parts. The digits read so far belong to the next part; a colon may follow a unit, if
`afterUnit` holds. Digits of all scripts are admitted here. -/
def relativeParts? (digits : List Char) (afterUnit : Bool) : List Char → Option (List RelativePart)
  | [] => if digits.isEmpty then some [] else none
  | c :: rest =>
    if Text.isDecimalDigit c then relativeParts? (digits ++ [c]) false rest
    else if c = ':' ∧ afterUnit then relativeParts? [] false rest
    else
      match TimeUnit.ofLetter? c with
      | some unit =>
        if digits.isEmpty then none else (relativeParts? [] true rest).map (⟨digits, unit⟩ :: ·)
      | none => none

/-- Adds parts to a number of seconds. A repeated unit is found first, then a number that cannot be read, then
a sum beyond the words. -/
def addParts (text : String) : (seen : List TimeUnit) → (total : Int) → List RelativePart → Except Flaw Int
  | _, total, [] => .ok total
  | seen, total, p :: rest =>
    if p.unit ∈ seen then .error (.repeatedUnit p.unit.letter text)
    else
      match (Decimal.readNat? p.digits).bind fun n => Timestamp.ofInt? n with
      | none => .error (.notRelative text)
      | some n =>
        match Timestamp.ofInt? (total + n.toInt * p.unit.seconds) with
        | none => .error (.outOfRange text)
        | some sum => addParts text (p.unit :: seen) sum.toInt rest

/-- Reads what follows the minus sign of a relative time. -/
def relative (text : String) (now : Timestamp) (s : List Char) : Except Flaw Timestamp :=
  match relativeParts? [] false s with
  | none | some [] => .error (.notRelative text)
  | some parts =>
    match addParts text [] 0 parts with
    | .error flaw => .error flaw
    | .ok total =>
      match Timestamp.ofInt? (now.toInt - total) with
      | none => .error (.outOfRange text)
      | some t => .ok t

end TimeArgument

end FlowArchive
