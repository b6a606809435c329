import FlowArchive.Json.Basic
import FlowArchive.Report.Cells

/-!
# Documents

A report as a JSON document. A row has the members of its key that are set, its counters, and its names that
are set.
-/

namespace FlowArchive.Report.Document

def member (name : String) (value : Option Json) : List (String × Json) :=
  (value.map fun v => (name, v)).toList

def counterMembers (c : Counters) : List (String × Json) :=
  counterHeadings.zip
    ([c.packetsReceived, c.packetsSent, c.bytesReceived, c.bytesSent].map fun n => Json.natural n.toNat)

def keyMembers (k : Key) : List (String × Json) :=
  member "time" (k.time.map fun t => .integer t.toInt) ++
    member "iface" (k.interface.map .string) ++
    member "sip" (k.source.map fun a => .string a.text) ++
    member "dip" (k.destination.map fun a => .string a.text) ++
    member "dport" (k.port.map fun n => .natural n.toNat) ++
    member "proto" (k.protocol.map fun n => .natural n.toNat)

def row (r : Row) : Json :=
  .object (keyMembers r.key ++ counterMembers r.counters ++ member "sip_name" (r.sourceName.map .string) ++
    member "dip_name" (r.destinationName.map .string))

def result (r : QueryResult) : Json :=
  .object [
    ("columns", .array (r.columns.map fun c => .string c.name)),
    ("rows", .array (r.rows.map row)),
    ("totals", .object (counterMembers r.totals)),
    ("hits_total", .natural r.hits),
    ("blocks_scanned", .natural r.blocksScanned),
    ("status", .string r.status.name),
    ("execution_time_ms", .float r.milliseconds)]

def interface (i : InterfaceInfo) : Json :=
  .object [("name", .string i.name), ("flow_count", .natural i.flows.toNat),
    ("traffic", .natural i.traffic.toNat), ("begin", .integer i.first.toInt)]

def interfaces (is : List InterfaceInfo) : Json := .array (is.map interface)

end FlowArchive.Report.Document
