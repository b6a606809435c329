import FlowArchive.Failure
import FlowArchive.Table

/-!
# Names of hosts

A resolver finds the addresses of a name and a name of an address. One kind is a fixed list of hosts; another
reads the lines of a hosts file and knows names of addresses alone.
-/

namespace FlowArchive

/-- Finds addresses of names and names of addresses. -/
structure Resolver where
  lookup : String → Except Failure (List Address)
  reverse : Address → Option String

namespace Resolver

def unknown (name : String) : Failure := .condition (.unknownHost name)

/-- The first name among those registered with an address. -/
def firstName (hosts : List (String × List Address)) (a : Address) : Option String :=
  (hosts.find? fun h => a ∈ h.2).map (·.1)

def lastAddresses (hosts : List (String × List Address)) (name : String) : Option (List Address) :=
  (hosts.reverse.find? fun h => h.1 == name).map (·.2)

/-- The resolver of hosts registered in order: a name that is registered again replaces its addresses, an
address keeps the name that registered it first. -/
def ofHosts (hosts : List (String × List Address)) : Resolver where
  lookup name :=
    match lastAddresses hosts name with
    | some addresses => .ok addresses
    | none => .error (unknown name)
  reverse := firstName hosts

/-- The part of a line in front of a comment. -/
def beforeComment (line : List Char) : List Char := line.takeWhile (· != '#')

/-- The address and the first name on a line of a hosts file. -/
def hostOfLine? (line : List Char) : Option (Address × String) :=
  match Text.wordsOf (beforeComment line) with
  | address :: name :: _ => (Address.ofChars? address).map fun a => (a, String.ofList name)
  | _ => none

/-- The addresses of a hosts file, each with the name on its first line. -/
def namesOfFile (text : String) : Table Address String :=
  ((Text.linesOf text.toList).filterMap hostOfLine?).foldl
    (fun t h => t.alter h.1 fun old => some (old.getD h.2)) .empty

/-- The resolver of a hosts file: it knows names of addresses, and no address of a name. -/
def ofFile (text : String) : Resolver where
  lookup name := .error (unknown name)
  reverse := (namesOfFile text).get?

/-- The addresses on the lines of a hosts file that mention a name. -/
def addressesInFile (text name : String) : List Address :=
  (Text.linesOf text.toList).filterMap fun line =>
    match Text.wordsOf (beforeComment line) with
    | address :: names => if name.toList ∈ names then Address.ofChars? address else none
    | [] => none

/-- The resolver that knows a name's address only where the name is one. -/
def literal : Resolver where
  lookup name :=
    match Address.ofText? name with
    | some a => .ok [a]
    | none => .error (.condition (.unresolvable name "not an address"))
  reverse _ := none

/-- The resolver of a system: a name is an address or stands in the hosts file. -/
def ofSystem (hostsFile : String) : Resolver where
  lookup name :=
    match literal.lookup name, addressesInFile hostsFile name with
    | .error _, a :: rest => .ok (a :: rest)
    | outcome, _ => outcome
  reverse := (ofFile hostsFile).reverse

end Resolver

end FlowArchive
