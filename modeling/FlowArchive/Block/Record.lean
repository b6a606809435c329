import FlowArchive.Bytes.Word
import FlowArchive.Flow.Basic

/-!
# Flows as bytes

A flow is written member by member: each address as a word that names its family and its octets, then port,
protocol and counters as little-endian words. A list of flows is its length, as a word of eight bytes, and its
members. Reading takes a value from the front and hands on the rest.
-/

namespace FlowArchive

namespace Address

/-- The word that names the family, then the octets. -/
def write : Address → Bytes
  | a@(v4 _) => Bytes.ofWord 4 0 ++ a.octets
  | a@(v6 _) => Bytes.ofWord 4 1 ++ a.octets

def read? (s : Bytes) : Option (Address × Bytes) := do
  let (family, s) ← Bytes.takeWord? 4 s
  match family with
  | 0 =>
    let (octets, s) ← Bytes.takeBytes? 4 s
    some (v4 (BitVec.ofNat 32 (numberOfOctets octets)), s)
  | 1 =>
    let (octets, s) ← Bytes.takeBytes? 16 s
    some (v6 (BitVec.ofNat 128 (numberOfOctets octets)), s)
  | _ => none

end Address

namespace Counters

def write (c : Counters) : Bytes :=
  Bytes.ofWord 8 c.packetsReceived.toNat ++ Bytes.ofWord 8 c.packetsSent.toNat ++
    Bytes.ofWord 8 c.bytesReceived.toNat ++ Bytes.ofWord 8 c.bytesSent.toNat

/-- Takes four counters from the front. -/
def read? (s : Bytes) : Option (Counters × Bytes) := do
  let (packetsReceived, s) ← Bytes.takeWord? 8 s
  let (packetsSent, s) ← Bytes.takeWord? 8 s
  let (bytesReceived, s) ← Bytes.takeWord? 8 s
  let (bytesSent, s) ← Bytes.takeWord? 8 s
  some (⟨.ofNat packetsReceived, .ofNat packetsSent, .ofNat bytesReceived, .ofNat bytesSent⟩, s)

end Counters

namespace Flow

def write (f : Flow) : Bytes :=
  f.source.write ++ f.destination.write ++ Bytes.ofWord 2 f.port.toNat ++ [f.protocol] ++ f.counters.write

def read? (s : Bytes) : Option (Flow × Bytes) := do
  let (source, s) ← Address.read? s
  let (destination, s) ← Address.read? s
  let (port, s) ← Bytes.takeWord? 2 s
  let (protocol, s) ← Bytes.takeWord? 1 s
  let (counters, s) ← Counters.read? s
  some (⟨source, destination, .ofNat port, .ofNat protocol, counters⟩, s)

def writeAll (fs : List Flow) : Bytes := Bytes.ofWord 8 fs.length ++ fs.flatMap write

/-- Takes a number of flows from the front. -/
def readMany? : (count : Nat) → Bytes → Option (List Flow × Bytes)
  | 0, s => some ([], s)
  | count + 1, s =>
    match read? s with
    | none => none
    | some (f, rest) => (readMany? count rest).map fun p => (f :: p.1, p.2)

def readAll? (s : Bytes) : Option (List Flow × Bytes) :=
  (Bytes.takeWord? 8 s).bind fun p => readMany? p.1 p.2

end Flow

end FlowArchive
