import FlowArchive.Bytes.Word

/-!
# Checksums

The cyclic redundancy check of 32 bits with the polynomial of IEEE 802.3 in reflected form. The remainder
starts with all bits set, takes the bytes in order and is inverted at the end.
-/

namespace FlowArchive.Checksum

/-- The polynomial, its highest power in the lowest bit and the leading one left out. -/
def polynomial : UInt32 := 0xEDB88320

/-- One division step: the remainder moves down a bit, and the polynomial is subtracted if a one fell out. -/
def shift (r : UInt32) : UInt32 :=
  if r &&& 1 = 1 then (r >>> 1) ^^^ polynomial else r >>> 1

/-- A number of division steps. -/
def shifts : Nat → UInt32 → UInt32
  | 0, r => r
  | n + 1, r => shifts n (shift r)

/-- The remainder after one more byte. -/
def step (r : UInt32) (b : UInt8) : UInt32 := shifts 8 (r ^^^ b.toUInt32)

def remainder (s : Bytes) : UInt32 := s.foldl step 0xFFFFFFFF

def ofBytes (s : Bytes) : UInt32 := remainder s ^^^ 0xFFFFFFFF

/-- The digits from 1 to 9 have the check value that this code is known by. -/
example : ofBytes [49, 50, 51, 52, 53, 54, 55, 56, 57] = 0xCBF43926 := by decide +kernel

end FlowArchive.Checksum
