import FlowArchive.Block.Index
import FlowArchive.Json.Basic
import FlowArchive.Json.Reader
import FlowArchive.Table

/-!
# Summaries

The summary of an archive states for each interface how many flows its blocks hold, the bytes they moved and
the time of the earliest one. It is kept as a document and changed block by block: writing adds to it,
cleaning takes away from it.
-/

namespace FlowArchive

/-- What is known of an interface without looking at its blocks. -/
structure InterfaceSummary where
  flows : UInt64
  traffic : UInt64
  first : Timestamp
deriving DecidableEq, Repr, Inhabited

/-- The interfaces of an archive. -/
structure Summary where
  interfaces : Table String InterfaceSummary
deriving DecidableEq

namespace InterfaceSummary

/-- The summary of an interface with one more block. -/
def add (old : Option InterfaceSummary) (d : Descriptor) : InterfaceSummary :=
  let base := old.getD ⟨0, 0, d.time⟩
  ⟨addCapped base.flows d.flows, addCapped base.traffic d.traffic, min base.first d.time⟩

/-- The summary of an interface that lost flows and traffic and whose first block is given. -/
def reduce (s : InterfaceSummary) (flows traffic : UInt64) (first : Timestamp) : InterfaceSummary :=
  ⟨subCapped s.flows flows, subCapped s.traffic traffic, first⟩

end InterfaceSummary

namespace Summary

/-- The summary of an archive without blocks. -/
def empty : Summary := ⟨.empty⟩

instance : Inhabited Summary := ⟨empty⟩

def get? (s : Summary) (interface : String) : Option InterfaceSummary := s.interfaces.get? interface

/-- The summary with one more block; an absent summary counts as empty. -/
def append (s : Option Summary) (interface : String) (d : Descriptor) : Summary :=
  ⟨(s.getD empty).interfaces.alter interface fun old => some (InterfaceSummary.add old d)⟩

/-! ## The document -/

/-- The fields of an interface, in the order of the document. -/
def interfaceJson (s : InterfaceSummary) : Json :=
  .object [("flow_count", .natural s.flows.toNat), ("traffic", .natural s.traffic.toNat),
    ("begin", .integer s.first.toInt)]

/-- The document of a summary. -/
def json (s : Summary) : Json :=
  .object [("interfaces", .object (s.interfaces.entries.map fun e => (e.1, interfaceJson e.2)))]

/-- The bytes of the document. -/
def write (s : Summary) : Bytes := Bytes.ofChars s.json.print

/-- The fields of an interface read so far. -/
structure Fields where
  flows : Option UInt64
  traffic : Option UInt64
  first : Option Timestamp

open JsonReader in
def interfaceFields : List (RecordField Fields) :=
  [{ name := "flow_count", isSet := fun f => f.flows.isSome,
     read := fun f s => (readUInt64 s).map fun p => ({ f with flows := some p.1 }, p.2) },
   { name := "traffic", isSet := fun f => f.traffic.isSome,
     read := fun f s => (readUInt64 s).map fun p => ({ f with traffic := some p.1 }, p.2) },
   { name := "begin", isSet := fun f => f.first.isSome,
     read := fun f s => (readInt64 s).map fun p => ({ f with first := some p.1 }, p.2) }]

/-- Takes the summary of an interface, all fields of which have to be there. -/
def readInterface : JsonReader InterfaceSummary := fun s => do
  let (f, s) ← JsonReader.record interfaceFields ⟨none, none, none⟩ s
  some (⟨← f.flows, ← f.traffic, ← f.first⟩, s)

/-- Takes the table of interfaces; a repeated interface takes its last summary. -/
def readInterfaces : JsonReader (Table String InterfaceSummary) :=
  JsonReader.object (fun name t s => (readInterface s).map fun p => (t.insert name p.1, p.2)) .empty

def documentFields : List (JsonReader.RecordField (Option (Table String InterfaceSummary))) :=
  [{ name := "interfaces", isSet := Option.isSome,
     read := fun _ s => (readInterfaces s).map fun p => (some p.1, p.2) }]

def reader : JsonReader Summary := fun s => do
  let (interfaces, s) ← JsonReader.record documentFields none s
  some (⟨← interfaces⟩, s)

def read? (s : Bytes) : Option Summary := JsonReader.whole reader s

end Summary

end FlowArchive
