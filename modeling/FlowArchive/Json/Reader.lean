import FlowArchive.Bytes.Utf8
import FlowArchive.Text.Decimal
import FlowArchive.Text.Hexadecimal

/-!
# Reading JSON

A reader takes a value of a known shape from the front of the bytes of a document. Values that nobody asks
for are skipped: they have to be written by the rules, but need not spell a text or fit a word. So strings are
read in two steps: the elements between the quotes first, and only where the text is wanted what they spell.
-/

namespace FlowArchive

/-- A reader takes a value from the front of a document and hands on the rest. -/
abbrev JsonReader (α : Type) := Bytes → Option (α × Bytes)

namespace JsonReader

def ascii (c : Char) : UInt8 := UInt8.ofNat c.toNat

/-- The character of an ASCII byte. -/
def charOf (b : UInt8) : Char := Char.ofNat b.toNat

def isBlank (b : UInt8) : Bool := b == ascii ' ' || b == ascii '\n' || b == ascii '\t' || b == ascii '\r'

def skipBlanks (s : Bytes) : Bytes := s.dropWhile isBlank

def char (c : Char) : JsonReader Unit
  | [] => none
  | b :: rest => if b = ascii c then some ((), rest) else none

/-- Takes a given character behind blanks. -/
def mark (c : Char) : JsonReader Unit := fun s => char c (skipBlanks s)

/-! ## Strings -/

/-- An element of a string: a byte that stands for itself, or an escaped word of sixteen bits. -/
inductive Element where
  | byte (b : UInt8)
  | word (n : Nat)
deriving DecidableEq, Repr

/-- The byte that an escape of two characters stands for. -/
def shortEscape? (b : UInt8) : Option UInt8 :=
  match charOf b with
  | '"' => some (ascii '"')
  | '\\' => some (ascii '\\')
  | '/' => some (ascii '/')
  | 'b' => some 8
  | 'f' => some 12
  | 'n' => some 10
  | 'r' => some 13
  | 't' => some 9
  | _ => none

/-- The number of four hexadecimal digits. -/
def hexWord? (s : Bytes) : Option Nat :=
  let shown := s.map charOf
  if shown.length = 4 ∧ shown.all (fun c => (Text.hexValue? c).isSome) then some (Text.hexNumber shown)
  else none

/-- Takes the elements up to the closing quote. -/
def elements : Bytes → Option (List Element × Bytes)
  | [] => none
  | b :: s =>
    if b = ascii '"' then some ([], s)
    else if b = ascii '\\' then
      match s with
      | [] => none
      | e :: rest =>
        if e = ascii 'u' then
          match rest with
          | d₁ :: d₂ :: d₃ :: d₄ :: rest =>
            (hexWord? [d₁, d₂, d₃, d₄]).bind fun n => (elements rest).map fun p => (.word n :: p.1, p.2)
          | _ => none
        else (shortEscape? e).bind fun c => (elements rest).map fun p => (.byte c :: p.1, p.2)
    else if b < 32 then none
    else (elements s).map fun p => (.byte b :: p.1, p.2)

/-- The first word of a pair that stands for one character. -/
def isLeading (n : Nat) : Bool := 0xD800 ≤ n && n < 0xDC00

/-- The second word of a pair that stands for one character. -/
def isTrailing (n : Nat) : Bool := 0xDC00 ≤ n && n < 0xE000

/-- The bytes that elements spell. A word of a pair is nothing by itself. -/
def spelled? : List Element → Option Bytes
  | [] => some []
  | .byte b :: rest => (spelled? rest).map (b :: ·)
  | .word n :: rest =>
    if isLeading n then
      match rest with
      | .word m :: rest =>
        if isTrailing m then
          (spelled? rest).map fun s =>
            String.utf8EncodeChar (Char.ofNat (0x10000 + (n - 0xD800) * 0x400 + (m - 0xDC00))) ++ s
        else none
      | _ => none
    else if isTrailing n then none
    else (spelled? rest).map (String.utf8EncodeChar (Char.ofNat n) ++ ·)

def stringElements : JsonReader (List Element) := fun s => (mark '"' s).bind fun p => elements p.2

/-- Takes a string that spells a text. -/
def readString : JsonReader String := fun s =>
  (stringElements s).bind fun p => ((spelled? p.1).bind Bytes.toText?).map fun t => (t, p.2)

/-! ## Numbers -/

def isDigit (b : UInt8) : Bool := Decimal.isDigit (charOf b)

def digits : JsonReader (List Char) := fun s =>
  let shown := s.takeWhile isDigit
  if shown.isEmpty then none else some (shown.map charOf, s.dropWhile isDigit)

/-- Takes digits without a superfluous zero in front. -/
def plainDigits : JsonReader (List Char) := fun s =>
  (digits s).filter fun p => p.1.length = 1 || p.1.head? != some '0'

def minus : JsonReader Bool := fun s =>
  match char '-' s with
  | some ((), rest) => some (true, rest)
  | none => some (false, s)

/-- Takes an integer. Zero has no sign. -/
def readInt : JsonReader Int := fun s => do
  let (negative, s) ← minus (skipBlanks s)
  let (shown, s) ← plainDigits s
  let n := Decimal.value shown
  if negative then (if n = 0 then none else some (-(n : Int), s)) else some ((n : Int), s)

/-- Takes an integer that fits an unsigned word. -/
def readUInt64 : JsonReader UInt64 := fun s =>
  (readInt s).bind fun p => if 0 ≤ p.1 ∧ p.1 < 18446744073709551616 then some (UInt64.ofNat p.1.toNat, p.2)
    else none

/-- Takes an integer that fits a signed word. -/
def readInt64 : JsonReader Int64 := fun s =>
  (readInt s).bind fun p =>
    if -9223372036854775808 ≤ p.1 ∧ p.1 < 9223372036854775808 then some (Int64.ofInt p.1, p.2) else none

/-- Takes a point and digits, if there is a point. -/
def skipFraction (s : Bytes) : Option Bytes :=
  match char '.' s with
  | some ((), rest) => (digits rest).map (·.2)
  | none => some s

def skipExponent (s : Bytes) : Option Bytes :=
  match (char 'e' s).or (char 'E' s) with
  | some ((), rest) =>
    match (char '+' rest).or (char '-' rest) with
    | some ((), rest) => (digits rest).map (·.2)
    | none => (digits rest).map (·.2)
  | none => some s

def skipNumber (s : Bytes) : Option Bytes := do
  let (_, s) ← minus s
  let (_, s) ← plainDigits s
  skipExponent (← skipFraction s)

/-! ## Arrays and objects -/

/-- Takes items with commas between them, up to a closing character. The state so far decides how the next
item is read. At most as many rounds are needed as there are bytes. -/
def moreItems {σ : Type} (close : Char) (item : σ → JsonReader σ) : (rounds : Nat) → σ → JsonReader σ
  | 0, _, _ => none
  | rounds + 1, state, s =>
    match mark close s with
    | some ((), rest) => some (state, rest)
    | none => do
      let ((), s) ← mark ',' s
      let (state, s) ← item state s
      moreItems close item rounds state s

def items {σ : Type} (open_ close : Char) (item : σ → JsonReader σ) (init : σ) : JsonReader σ := fun s => do
  let ((), s) ← mark open_ s
  match mark close s with
  | some ((), rest) => some (init, rest)
  | none =>
    let (state, s) ← item init s
    moreItems close item s.length state s

def array {σ : Type} (item : σ → JsonReader σ) (init : σ) : JsonReader σ := items '[' ']' item init

/-- Takes an object, each member of which is read by what its name and the state so far call for. -/
def object {σ : Type} (member : String → σ → JsonReader σ) (init : σ) : JsonReader σ :=
  items '\x7b' '\x7d' (fun state s => do
    let (name, s) ← readString s
    let ((), s) ← mark ':' s
    member name state s) init

def skipWord (word : List Char) (s : Bytes) : Option Bytes :=
  if (word.map ascii).isPrefixOf s then some (s.drop word.length) else none

/-- Takes any value with at most a number of arrays and objects around a scalar. -/
def skipLevels : (levels : Nat) → Bytes → Option Bytes
  | 0, _ => none
  | levels + 1, s =>
    let s := skipBlanks s
    let item : Unit → JsonReader Unit := fun _ s => (skipLevels levels s).map fun rest => ((), rest)
    let member : Unit → JsonReader Unit := fun _ s => do
      let (_, s) ← stringElements s
      let ((), s) ← mark ':' s
      (skipLevels levels s).map fun rest => ((), rest)
    match s with
    | [] => none
    | b :: _ =>
      match charOf b with
      | 'n' => skipWord ['n', 'u', 'l', 'l'] s
      | 't' => skipWord ['t', 'r', 'u', 'e'] s
      | 'f' => skipWord ['f', 'a', 'l', 's', 'e'] s
      | '"' => (stringElements s).map (·.2)
      | '[' => (items '[' ']' item () s).map (·.2)
      | '\x7b' => (items '\x7b' '\x7d' member () s).map (·.2)
      | _ => skipNumber s

/-- Takes any value. -/
def skip (s : Bytes) : Option Bytes := skipLevels (s.length + 1) s

/-! ## Records -/

/-- A field of a record that is being read. -/
structure RecordField (σ : Type) where
  name : String
  isSet : σ → Bool
  read : σ → JsonReader σ

/-- Takes the fields of a record from an array, in their order. -/
def inOrder {σ : Type} : List (RecordField σ) → σ → JsonReader σ
  | [], state, s => (mark ']' s).map fun p => (state, p.2)
  | f :: rest, state, s =>
    match mark ']' s with
    | some ((), behind) => some (state, behind)
    | none => do
      let (state, s) ← f.read state s
      match mark ']' s with
      | some ((), behind) => some (state, behind)
      | none =>
        let ((), s) ← mark ',' s
        if rest.isEmpty || (mark ']' s).isSome then none else inOrder rest state s

/-- Takes a field of a record by its name. A field that is given twice is refused, one that the record does not
have is skipped. -/
def byName {σ : Type} (fields : List (RecordField σ)) (name : String) (state : σ) : JsonReader σ := fun s =>
  match fields.find? fun f => f.name == name with
  | some f => if f.isSet state then none else f.read state s
  | none => (skip s).map fun rest => (state, rest)

/-- Takes a record: an object of its fields, or an array of their values. Fields may be missing. -/
def record {σ : Type} (fields : List (RecordField σ)) (init : σ) : JsonReader σ := fun s =>
  match mark '[' s with
  | some ((), rest) => inOrder fields init rest
  | none => object (byName fields) init s

/-- The value that a whole document spells. -/
def whole {α : Type} (r : JsonReader α) (s : Bytes) : Option α :=
  match r s with
  | some (a, rest) => if (skipBlanks rest).isEmpty then some a else none
  | none => none

end JsonReader

end FlowArchive
