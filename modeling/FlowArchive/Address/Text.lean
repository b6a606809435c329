import FlowArchive.Address.Basic
import FlowArchive.Text.Decimal
import FlowArchive.Text.Hexadecimal

/-!
# The text of addresses

Addresses of the fourth version are four decimal octets between points. Those of the sixth are eight groups
of hexadecimal digits between colons, of which one run of zeros may be left out; the last two groups may be
written as an address of the fourth version. Reading consumes a part of the text and hands on the rest, so
that the readers compose.
-/

namespace FlowArchive.Address

open FlowArchive.Text

/-! ## Printing -/

/-- An octet list between points. -/
def printV4 (bits : BitVec 32) : List Char :=
  let n := bits.toNat
  let octet (i : Nat) := Decimal.digits (n / Nat.pow 256 i % 256)
  octet 3 ++ ['.'] ++ octet 2 ++ ['.'] ++ octet 1 ++ ['.'] ++ octet 0

/-- The eight groups of sixteen bits, most significant first. -/
def groups (bits : BitVec 128) : List Nat :=
  (List.range 8).map fun i => bits.toNat / Nat.pow 65536 (7 - i) % 65536

def zeroRun (s : List Nat) : Nat := (s.takeWhile (· == 0)).length

/-- Start and length of the first longest run of zeros. -/
def longestZeroRun : List Nat → Nat × Nat
  | [] => (0, 0)
  | g :: rest =>
    let here := zeroRun (g :: rest)
    let later := longestZeroRun rest
    if later.2 ≤ here then (0, here) else (later.1 + 1, later.2)

/-- Groups between colons. -/
def joinGroups : List Nat → List Char
  | [] => []
  | [g] => hexDigits g
  | g :: rest => hexDigits g ++ [':'] ++ joinGroups rest

/-- The first longest run of two or more zero groups is left out. An address that embeds one of the fourth
version behind `::ffff:` shows it with points. -/
def printV6 (bits : BitVec 128) : List Char :=
  let gs := groups bits
  if gs.take 6 = [0, 0, 0, 0, 0, 0xffff] then
    [':', ':', 'f', 'f', 'f', 'f', ':'] ++ printV4 (bits.truncate 32)
  else
    let run := longestZeroRun gs
    if 1 < run.2 then
      joinGroups (gs.take run.1) ++ [':', ':'] ++ joinGroups (gs.drop (run.1 + run.2))
    else joinGroups gs

def print : Address → List Char
  | v4 bits => printV4 bits
  | v6 bits => printV6 bits

def text (a : Address) : String := String.ofList a.print

/-! ## Reading -/

/-- A reader takes a value from the front of a text and hands on the rest. -/
abbrev Reader (α : Type) := List Char → Option (α × List Char)

def char (c : Char) : Reader Unit
  | [] => none
  | d :: rest => if d = c then some ((), rest) else none

/-- Whether leading zeros are allowed in the octets of an address. -/
inductive Zeros where
  | plain
  | padded
deriving DecidableEq

/-- Takes up to three digits that spell an octet. -/
def readOctet (zeros : Zeros) : Reader Nat := fun s =>
  let shown := s.takeWhile Decimal.isDigit
  if shown.isEmpty || 3 < shown.length || 255 < Decimal.value shown then none
  else if zeros = .plain && shown.head? = some '0' && 1 < shown.length then none
  else some (Decimal.value shown, s.dropWhile Decimal.isDigit)

/-- Takes an address of the fourth version. -/
def readV4 (zeros : Zeros) : Reader (BitVec 32) := fun s => do
  let (a, s) ← readOctet zeros s
  let ((), s) ← char '.' s
  let (b, s) ← readOctet zeros s
  let ((), s) ← char '.' s
  let (c, s) ← readOctet zeros s
  let ((), s) ← char '.' s
  let (d, s) ← readOctet zeros s
  some (BitVec.ofNat 32 (((a * 256 + b) * 256 + c) * 256 + d), s)

/-- Takes up to four hexadecimal digits. -/
def readGroup : Reader Nat := fun s =>
  let shown := s.takeWhile fun c => (hexValue? c).isSome
  if shown.isEmpty || 4 < shown.length then none
  else some (hexNumber shown, s.drop shown.length)

/-- Takes at most `room` groups with a colon between neighbours, the last two of which may be an address of
the fourth version. Returns the groups, whether they end in such an address, and the rest. -/
def readGroups (zeros : Zeros) (first : Bool) : (room : Nat) → List Char → List Nat × Bool × List Char
  | 0, s => ([], false, s)
  | room + 1, s =>
    let body : Option (List Char) := if first then some s else (char ':' s).map (·.2)
    let embedded : Option (BitVec 32 × List Char) := if 0 < room then body.bind (readV4 zeros) else none
    match embedded with
    | some (bits, rest) => ([bits.toNat / 65536, bits.toNat % 65536], true, rest)
    | none =>
      match body.bind readGroup with
      | some (g, rest) =>
        let (gs, ended, rest) := readGroups zeros false room rest
        (g :: gs, ended, rest)
      | none => ([], false, s)

/-- The bits of eight groups. -/
def ofGroups (gs : List Nat) : BitVec 128 := BitVec.ofNat 128 (gs.foldl (fun n g => 65536 * n + g) 0)

/-- The least number of groups that `::` stands for. -/
abbrev Omitted := Nat

/-- Takes an address of the sixth version. -/
def readV6 (zeros : Zeros) (omitted : Omitted) : Reader (BitVec 128) := fun s => do
  let (head, ended, rest) := readGroups zeros true 8 s
  if head.length = 8 then some (ofGroups head, rest)
  else if ended then none
  else
    let ((), rest) ← char ':' rest
    let ((), rest) ← char ':' rest
    let (tail, _, rest) := readGroups zeros true (8 - omitted - head.length) rest
    some (ofGroups (head ++ List.replicate (8 - head.length - tail.length) 0 ++ tail), rest)

/-- A value that the whole text spells. -/
def whole {α : Type} (r : Reader α) (s : List Char) : Option α :=
  match r s with
  | some (a, []) => some a
  | _ => none

/-- Reads an address: octets have no leading zeros and `::` stands for at least one group. The family is the
first whose form opens the text. -/
def ofChars? (s : List Char) : Option Address :=
  match readV4 .plain s with
  | some (bits, rest) => if rest.isEmpty then some (v4 bits) else none
  | none => (whole (readV6 .plain 1) s).map v6

def ofText? (s : String) : Option Address := ofChars? s.toList

end FlowArchive.Address

namespace FlowArchive.Network

open FlowArchive.Address

/-- Takes a prefix length of a bounded number of digits. -/
def readLength (places bound : Nat) : Reader { n : Nat // n ≤ bound } := fun s =>
  let shown := s.takeWhile Decimal.isDigit
  if shown.isEmpty || places < shown.length then none
  else if h : Decimal.value shown ≤ bound then some (⟨Decimal.value shown, h⟩, s.drop shown.length)
  else none

/-- Takes an address of the fourth version, a stroke and a prefix length of up to two digits. -/
def readV4 : Reader Network := fun s => do
  let (bits, s) ← Address.readV4 .padded s
  let ((), s) ← char '/' s
  let (n, s) ← readLength 2 32 s
  some (⟨.v4 bits, n.1, n.2⟩, s)

/-- Takes an address of the sixth version, a stroke and a prefix length of up to three digits. -/
def readV6 : Reader Network := fun s => do
  let (bits, s) ← Address.readV6 .padded 0 s
  let ((), s) ← char '/' s
  let (n, s) ← readLength 3 128 s
  some (⟨.v6 bits, n.1, n.2⟩, s)

/-- Reads a network in prefix notation, where octets may have leading zeros. -/
def ofPrefixNotation? (s : List Char) : Option Network :=
  match readV4 s with
  | some (n, rest) => if rest.isEmpty then some n else none
  | none => whole readV6 s

/-- Reads a network in prefix notation, or an address as the network that holds it alone. The result is named
by its lowest address. -/
def ofText? (s : String) : Option Network :=
  match ofPrefixNotation? s.toList with
  | some n => some n.canonical
  | none => (Address.ofText? s).map single

def text (n : Network) : String := n.address.text ++ "/" ++ Decimal.text n.prefixLength

end FlowArchive.Network
