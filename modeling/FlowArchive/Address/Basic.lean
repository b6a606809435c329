/-!
# Network addresses

An address of the fourth or sixth version of the Internet Protocol, and networks: the addresses that share
their first bits.
-/

namespace FlowArchive

/-- An address is its bits, of which its family has 32 or 128. -/
inductive Address where
  | v4 (bits : BitVec 32)
  | v6 (bits : BitVec 128)
deriving DecidableEq, Repr

namespace Address

instance : Inhabited Address := ⟨v4 0⟩

/-- The number of bits of the family. -/
def width : Address → Nat
  | v4 _ => 32
  | v6 _ => 128

/-- The bits as a number. -/
def toNat : Address → Nat
  | v4 bits => bits.toNat
  | v6 bits => bits.toNat

/-- Addresses of the fourth version come first; within a family the numbers decide. -/
instance : Ord Address := ⟨compareLex (compareOn width) (compareOn toNat)⟩

theorem compare_def (a b : Address) :
    compare a b = compareLex (compareOn width) (compareOn toNat) a b := rfl

instance : Std.TransOrd Address :=
  inferInstanceAs (Std.TransCmp (compareLex (compareOn width) (compareOn toNat)))

instance : Std.LawfulEqOrd Address where
  eq_of_compare {a b} h := by
    simp only [compare_def, compareLex, compareOn, Ordering.then_eq_eq,
      Std.LawfulEqCmp.compare_eq_iff_eq] at h
    cases a <;> cases b <;> simp_all [width, toNat, BitVec.toNat_inj]

/-- The four octets of an address, or its sixteen. -/
def octets : Address → List UInt8
  | v4 bits => (List.range 4).map fun i => UInt8.ofNat (bits.toNat / Nat.pow 256 (3 - i))
  | v6 bits => (List.range 16).map fun i => UInt8.ofNat (bits.toNat / Nat.pow 256 (15 - i))

/-- The number that octets spell, most significant first. -/
def numberOfOctets (s : List UInt8) : Nat := s.foldl (fun n b => 256 * n + b.toNat) 0

end Address

/-- The addresses of one family that agree with a given one on a number of leading bits. -/
structure Network where
  address : Address
  prefixLength : Nat
  prefixLength_le : prefixLength ≤ address.width
deriving DecidableEq

namespace Network

/-- The number of bits behind the prefix. -/
def hostBits (n : Network) : Nat := n.address.width - n.prefixLength

/-- An address without its last bits. -/
def clear (hostBits : Nat) : Address → Address
  | .v4 bits => .v4 ((bits >>> hostBits) <<< hostBits)
  | .v6 bits => .v6 ((bits >>> hostBits) <<< hostBits)

theorem width_clear (hostBits : Nat) (a : Address) : (clear hostBits a).width = a.width := by
  cases a <;> rfl

/-- The network named by its lowest address. -/
def canonical (n : Network) : Network :=
  ⟨clear n.hostBits n.address, n.prefixLength, by rw [width_clear]; exact n.prefixLength_le⟩

def single (a : Address) : Network := ⟨a, a.width, Nat.le_refl _⟩

/-- Whether an address agrees with the network on its prefix. -/
def contains (n : Network) (a : Address) : Bool :=
  a.width == n.address.width && clear n.hostBits a == clear n.hostBits n.address

end Network

end FlowArchive
