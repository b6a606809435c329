import FlowArchive.Bytes.Word

/-!
# Compressed byte strings

The block format of LZ4. A compressed string is a list of sequences, each some literal bytes and a copy of
earlier output, and literal bytes at the end. Compression searches for copies greedily with a table of the
last positions of hashed groups of bytes; a plan that does not expand to the input is not used, so what is
compressed always expands to the input again.
-/

namespace FlowArchive.Lz4

/-- Literal bytes, then a copy of `length` bytes that starts `distance` bytes back in the output. A copy may
run into the bytes it writes. -/
structure Sequence where
  literals : Bytes
  distance : Nat
  length : Nat
deriving DecidableEq, Repr, Inhabited

/-- A compressed string. -/
structure Plan where
  sequences : List Sequence
  tail : Bytes
deriving DecidableEq, Repr, Inhabited

/-- The shortest copy. -/
def leastCopy : Nat := 4

/-! ## Expansion -/

/-- Repeats the byte `distance` bytes back a number of times. -/
def copy (distance : Nat) : (length : Nat) → Array UInt8 → Option (Array UInt8)
  | 0, out => some out
  | length + 1, out =>
    if h : 0 < distance ∧ distance ≤ out.size then
      have : out.size - distance < out.size := by omega
      copy distance length (out.push out[out.size - distance])
    else none

/-- Appends what a list of sequences stands for. -/
def expandSequences : List Sequence → Array UInt8 → Option (Array UInt8)
  | [], out => some out
  | q :: rest, out => (copy q.distance q.length (out ++ q.literals)).bind (expandSequences rest)

/-- The bytes that a plan stands for; absent if a copy starts before the output or nowhere. -/
def Plan.expand (p : Plan) : Option Bytes :=
  (expandSequences p.sequences #[]).map fun out => out.toList ++ p.tail

/-! ## Writing and reading of plans -/

/-- The part of a length that does not fit its four bits. -/
def writeLength (n : Nat) : Bytes :=
  if n < 255 then [UInt8.ofNat n] else 255 :: writeLength (n - 255)

/-- The part of a length behind its four bits. -/
def readLength : Bytes → Option (Nat × Bytes)
  | [] => none
  | b :: rest => if b = 255 then (readLength rest).map fun p => (255 + p.1, p.2) else some (b.toNat, rest)

/-- The extension of a length whose four bits are full. -/
def extension (n : Nat) : Bytes := if n < 15 then [] else writeLength (n - 15)

/-- Completes a length from its four bits. -/
def readExtension (low : Nat) (s : Bytes) : Option (Nat × Bytes) :=
  if low < 15 then some (low, s) else (readLength s).map fun p => (15 + p.1, p.2)

/-- The byte that holds four bits of both lengths. -/
def tokenByte (literals copy : Nat) : UInt8 := UInt8.ofNat (min literals 15 * 16 + min copy 15)

def Sequence.write (q : Sequence) : Bytes :=
  tokenByte q.literals.length (q.length - leastCopy) :: (extension q.literals.length ++ q.literals ++
    Bytes.ofWord 2 q.distance ++ extension (q.length - leastCopy))

def Plan.write (p : Plan) : Bytes :=
  p.sequences.flatMap Sequence.write ++ tokenByte p.tail.length 0 :: (extension p.tail.length ++ p.tail)

theorem readLength_lt {s rest : Bytes} {n : Nat} (h : readLength s = some (n, rest)) :
    rest.length < s.length := by
  induction s generalizing n with
  | nil => simp [readLength] at h
  | cons b tail ih =>
    rw [readLength] at h
    split at h
    · obtain ⟨p, hp, e⟩ := Option.map_eq_some_iff.1 h
      have := ih (n := p.1) (by rw [hp]; cases e; rfl)
      simp; omega
    · cases h; simp

theorem readExtension_le {low n : Nat} {s rest : Bytes} (h : readExtension low s = some (n, rest)) :
    rest.length ≤ s.length := by
  rw [readExtension] at h
  split at h
  · cases h; exact Nat.le_refl _
  · obtain ⟨p, hp, e⟩ := Option.map_eq_some_iff.1 h
    have : p.2.length < _ := readLength_lt hp
    cases e; omega

/-- Reads a plan. The string ends with the literals of its last sequence, whose copy length is ignored. -/
def Plan.read? (s : Bytes) : Option Plan :=
  match s with
  | [] => none
  | token :: s =>
    match _h₁ : readExtension (token.toNat / 16) s with
    | none => none
    | some (count, rest) =>
      if (rest.take count).length < count then none
      else
        match _h₂ : rest.drop count with
        | [] => some ⟨[], rest.take count⟩
        | [_] => none
        | low :: high :: behind =>
          match _h₃ : readExtension (token.toNat % 16) behind with
          | none => none
          | some (more, next) =>
            match Plan.read? next with
            | none => none
            | some p =>
              some ⟨⟨rest.take count, Bytes.toWord [low, high], more + leastCopy⟩ :: p.sequences, p.tail⟩
termination_by s.length
decreasing_by
  have a := readExtension_le _h₁
  have b := readExtension_le _h₃
  have c := congrArg List.length _h₂
  simp only [List.length_drop, List.length_cons] at *
  omega

/-- Expands a compressed string into at most `room` bytes. -/
def expand? (room : Nat) (s : Bytes) : Option Bytes :=
  (Plan.read? s).bind fun p => p.expand.filter fun out => out.length ≤ room

/-! ## Search for copies -/

/-- Inputs below this size are hashed by groups of four bytes, others by groups of five. -/
def largeInput : Nat := 65535

/-- Entries of the table of positions. -/
def tableSize : Nat := 4096

/-- A copy starts at least this many bytes before the end. -/
def searchMargin : Nat := 12

/-- A copy ends at least this many bytes before the end. -/
def copyMargin : Nat := 6

def greatestDistance : Nat := 65535

/-- The number that bytes from a position on spell, least significant first. -/
def groupAt (s : Array UInt8) (at_ count : Nat) : Nat :=
  (List.range count).foldr (fun i n => 256 * n + (s.getD (at_ + i) 0).toNat) 0

/-- The entry of the table for the group at a position. -/
def hashAt (s : Array UInt8) (at_ : Nat) : Nat :=
  if s.size < largeInput then groupAt s at_ 4 * 2654435761 % 0x100000000 / 0x100000
  else groupAt s at_ 5 * 0x1000000 * 889523592379 % 0x10000000000000000 / 0x10000000000000

/-- How many bytes before two positions agree, up to a bound. -/
def agreeBefore (s : Array UInt8) : (bound : Nat) → Nat → Nat → Nat
  | 0, _, _ => 0
  | _ + 1, 0, _ => 0
  | _ + 1, _, 0 => 0
  | bound + 1, a + 1, b + 1 => if s.getD a 0 = s.getD b 0 then agreeBefore s bound a b + 1 else 0

/-- How many bytes from two positions on agree, up to a bound. -/
def agreeFrom (s : Array UInt8) : (bound : Nat) → Nat → Nat → Nat
  | 0, _, _ => 0
  | bound + 1, a, b => if s.getD a 0 = s.getD b 0 then agreeFrom s bound (a + 1) (b + 1) + 1 else 0

/-- Bytes between two positions. -/
def slice (s : Array UInt8) (first stop : Nat) : Bytes := (s.extract first stop).toList

/-- Searches on from a position. Every 32 misses in a row widen the step by one. -/
def search (s : Array UInt8) : (rounds : Nat) → (table : Array Nat) → (at_ misses start : Nat) → Plan
  | 0, _, _, _, start => ⟨[], slice s start s.size⟩
  | rounds + 1, table, at_, misses, start =>
    if s.size < at_ + searchMargin then ⟨[], slice s start s.size⟩
    else
      let entry := hashAt s at_
      let candidate := table.getD entry 0
      let table := table.setIfInBounds entry at_
      if at_ - candidate ≤ greatestDistance ∧ groupAt s candidate 4 = groupAt s at_ 4 then
        let back := agreeBefore s (at_ - start) at_ candidate
        let length := 4 + agreeFrom s (s.size - copyMargin - (at_ + 4)) (at_ + 4) (candidate + 4)
        let next := at_ + length
        let table := table.setIfInBounds (hashAt s (next - 2)) (next - 2)
        let rest := search s rounds table next 32 next
        ⟨⟨slice s start (at_ - back), at_ - candidate, back + length⟩ :: rest.sequences, rest.tail⟩
      else search s rounds table (at_ + misses / 32) (misses + 1) start

/-- The plan of a greedy search. -/
def searchPlan (s : Array UInt8) : Plan :=
  if s.size ≤ searchMargin then ⟨[], s.toList⟩
  else search s s.size ((Array.replicate tableSize 0).setIfInBounds (hashAt s 0) 0) 1 32 0

/-- A plan for an input: the greedy one, or all bytes as literals if that does not expand to the input. -/
def planOf (s : Bytes) : Plan :=
  let found := searchPlan s.toArray
  if Plan.read? found.write = some found ∧ found.expand = some s then found else ⟨[], s⟩

def compress (s : Bytes) : Bytes := (planOf s).write

end FlowArchive.Lz4
