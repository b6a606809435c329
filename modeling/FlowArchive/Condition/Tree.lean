import FlowArchive.Condition.Token

/-!
# Conditions

A condition compares attributes of a flow with values and joins comparisons by and, or and not. Values stay
as they were written; what they stand for is decided when the condition is compiled.
-/

namespace FlowArchive

/-- What a comparison looks at. -/
inductive Attribute where
  | source
  | destination
  /-- Either address. -/
  | host
  | sourceNet
  | destinationNet
  /-- The network of either address. -/
  | net
  | port
  | protocol
deriving DecidableEq, Repr

namespace Attribute

def name : Attribute → String
  | source => "sip"
  | destination => "dip"
  | host => "host"
  | sourceNet => "snet"
  | destinationNet => "dnet"
  | net => "net"
  | port => "dport"
  | protocol => "proto"

/-- The attribute of a name in any letter case. -/
def ofName? (s : String) : Option Attribute :=
  match Text.foldName s with
  | "sip" | "src" => some source
  | "dip" | "dst" => some destination
  | "host" => some host
  | "snet" => some sourceNet
  | "dnet" => some destinationNet
  | "net" => some net
  | "dport" => some port
  | "proto" => some protocol
  | _ => none

/-- Whether the attribute looks at addresses, which are not compared by order. -/
def isAddress : Attribute → Bool
  | port | protocol => false
  | _ => true

def supports (a : Attribute) (op : Comparison) : Bool :=
  !a.isAddress || op == .eq || op == .ne

end Attribute

/-- A condition on flows. -/
inductive Condition where
  | compare (subject : Attribute) (op : Comparison) (value : String)
  | and (left right : Condition)
  | or (left right : Condition)
  | not (inner : Condition)
deriving DecidableEq, Repr

namespace Condition

/-- The text of a condition: pairs in round brackets, comparisons with one blank around the symbol. -/
def text : Condition → String
  | compare a op value => a.name ++ " " ++ op.symbol ++ " " ++ value
  | and l r => "(" ++ l.text ++ " & " ++ r.text ++ ")"
  | or l r => "(" ++ l.text ++ " | " ++ r.text ++ ")"
  | not inner => "!" ++ inner.text

/-- The number of nodes on the longest way from the root to a comparison. -/
def height : Condition → Nat
  | compare _ _ _ => 1
  | and l r | or l r => max l.height r.height + 1
  | not inner => inner.height + 1

end Condition

end FlowArchive
