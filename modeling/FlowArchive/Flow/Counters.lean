import FlowArchive.Text.Decimal

/-!
# Counters

How many packets and bytes a flow moved each way. Sums wrap around at 64 bits, so that adding counters is
commutative and associative whatever their size. Totals that are kept on disk do not wrap: they stop at the
greatest word, and at zero.
-/

namespace FlowArchive

/-- Adds two counts; a sum beyond the greatest word becomes that word. -/
def addCapped (a b : UInt64) : UInt64 := UInt64.ofNatClamp (a.toNat + b.toNat)

/-- Subtracts a count; a difference below zero becomes zero. -/
def subCapped (a b : UInt64) : UInt64 := UInt64.ofNat (a.toNat - b.toNat)

/-- Packets and bytes of a flow, received and sent. -/
structure Counters where
  packetsReceived : UInt64
  packetsSent : UInt64
  bytesReceived : UInt64
  bytesSent : UInt64
deriving DecidableEq, Repr

namespace Counters

/-- No traffic. -/
def zero : Counters := ⟨0, 0, 0, 0⟩

instance : Inhabited Counters := ⟨zero⟩

/-- Adds each counter, wrapping around. -/
def add (a b : Counters) : Counters :=
  ⟨a.packetsReceived + b.packetsReceived, a.packetsSent + b.packetsSent,
    a.bytesReceived + b.bytesReceived, a.bytesSent + b.bytesSent⟩

instance : Add Counters := ⟨add⟩

/-- Bytes both ways, wrapping around. -/
def totalBytes (c : Counters) : UInt64 := c.bytesReceived + c.bytesSent

/-- Packets both ways, wrapping around. -/
def totalPackets (c : Counters) : UInt64 := c.packetsReceived + c.packetsSent

def sum (cs : List Counters) : Counters := cs.foldl (· + ·) zero

theorem add_def (a b : Counters) : a + b =
    ⟨a.packetsReceived + b.packetsReceived, a.packetsSent + b.packetsSent,
      a.bytesReceived + b.bytesReceived, a.bytesSent + b.bytesSent⟩ := rfl

theorem add_comm (a b : Counters) : a + b = b + a := by
  simp [add_def, UInt64.add_comm]

theorem add_assoc (a b c : Counters) : a + b + c = a + (b + c) := by
  simp [add_def, UInt64.add_assoc]

theorem zero_add (a : Counters) : zero + a = a := by
  simp [add_def, zero]

theorem add_zero (a : Counters) : a + zero = a := by
  simp [add_def, zero]

/-- The four counters with their names. -/
def text (c : Counters) : String :=
  "pkts_rcvd: " ++ Decimal.text c.packetsReceived.toNat ++
    " pkts_sent: " ++ Decimal.text c.packetsSent.toNat ++
    " bytes_rcvd: " ++ Decimal.text c.bytesReceived.toNat ++
    " bytes_sent: " ++ Decimal.text c.bytesSent.toNat

end Counters

end FlowArchive
