import FlowArchive.Text.Case
import FlowArchive.Text.Decimal

/-!
# Transport protocols

Names of the transport protocols that are shown by name. A protocol is read by number or, in any letter case,
by name; one without a name is shown by number.
-/

namespace FlowArchive.Protocol

def named : List (String × UInt8) :=
  [("ICMP", 1), ("IGMP", 2), ("TCP", 6), ("UDP", 17), ("GRE", 47), ("ESP", 50), ("AH", 51), ("ICMPv6", 58),
    ("SCTP", 132)]

/-- The protocol of a number or a name. -/
def ofText? (s : String) : Option UInt8 :=
  match Decimal.readUInt8? s with
  | some n => some n
  | none => (named.find? fun p => Text.sameAsciiLetters p.1.toList s.toList).map (·.2)

/-- The name of a protocol, or its number. -/
def text (p : UInt8) : String :=
  match named.find? fun q => q.2 == p with
  | some q => q.1
  | none => Decimal.text p.toNat

end FlowArchive.Protocol
