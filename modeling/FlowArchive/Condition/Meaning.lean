import FlowArchive.Condition.Tree
import FlowArchive.Resolver

/-!
# What conditions mean

The meaning of a condition as it is written, without compiling it. The value of an address attribute stands
for a set of addresses: that of a literal, those of a host, or those that agree with a network on its leading
bits. A comparison by equality asks whether an end of the flow is in the set, and one by inequality denies
just that.
-/

namespace FlowArchive

namespace Address

/-- A bit of an address, counted from the most significant one. -/
def leadingBit (i : Nat) : Address → Bool
  | v4 bits => bits.getMsbD i
  | v6 bits => bits.getMsbD i

end Address

namespace Network

/-- An address is of the family of a network and agrees with it on the bits of its prefix. -/
def Covers (n : Network) (a : Address) : Prop :=
  a.width = n.address.width ∧ ∀ i < n.prefixLength, a.leadingBit i = n.address.leadingBit i

/-- The network that a text spells, or that of the one address it spells, with all bits as they are given. -/
def spelled? (s : String) : Option Network :=
  (ofPrefixNotation? s.toList).or ((Address.ofText? s).map single)

end Network

namespace Condition

/-- The addresses that a literal or the name of a host stands for. -/
def hostAddresses? (hosts : Resolver) (value : String) : Option (List Address) :=
  match Address.ofText? value with
  | some a => some [a]
  | none => (hosts.lookup value).toOption

/-- The value of an attribute stands for a set of addresses that has a given member. -/
def Denotes (hosts : Resolver) : Attribute → String → Address → Prop
  | .source, value, x | .destination, value, x | .host, value, x =>
    ∃ addresses, hostAddresses? hosts value = some addresses ∧ x ∈ addresses
  | .sourceNet, value, x | .destinationNet, value, x | .net, value, x =>
    ∃ n, Network.spelled? value = some n ∧ n.Covers x
  | .port, _, _ | .protocol, _, _ => False

/-- The value of an attribute can be read. -/
def IsReadable (hosts : Resolver) : Attribute → String → Prop
  | .source, value | .destination, value | .host, value => (hostAddresses? hosts value).isSome
  | .sourceNet, value | .destinationNet, value | .net, value => (Network.spelled? value).isSome
  | .port, value => (Decimal.readUInt16? value).isSome
  | .protocol, value => (Protocol.ofText? value).isSome

/-- Every comparison is one that its attribute supports, with a value that can be read. -/
def IsWellFormed (hosts : Resolver) : Condition → Prop
  | compare a op value => a.supports op ∧ IsReadable hosts a value
  | and l r | or l r => l.IsWellFormed hosts ∧ r.IsWellFormed hosts
  | not inner => inner.IsWellFormed hosts

/-- An end of a flow that an attribute looks at is among the addresses of a value. -/
def Concerns (hosts : Resolver) (a : Attribute) (value : String) (f : Flow) : Prop :=
  match a with
  | .source | .sourceNet => Denotes hosts a value f.source
  | .destination | .destinationNet => Denotes hosts a value f.destination
  | .host | .net => Denotes hosts a value f.source ∨ Denotes hosts a value f.destination
  | .port | .protocol => False

def Holds (hosts : Resolver) : Condition → Flow → Prop
  | compare .port op value, f => ∃ n, Decimal.readUInt16? value = some n ∧ op.holds f.port n
  | compare .protocol op value, f => ∃ n, Protocol.ofText? value = some n ∧ op.holds f.protocol n
  | compare a op value, f => if op = .ne then ¬ Concerns hosts a value f else Concerns hosts a value f
  | and l r, f => l.Holds hosts f ∧ r.Holds hosts f
  | or l r, f => l.Holds hosts f ∨ r.Holds hosts f
  | not inner, f => ¬ inner.Holds hosts f

end Condition

end FlowArchive
