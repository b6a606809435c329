import FlowArchive.Query.Run
import FlowArchive.Time.Calendar

/-!
# Cells

Every form of a report but the document shows a row as a list of cells: one for each column and one for each
counter.
-/

namespace FlowArchive.Report

/-- The forms of a report. -/
inductive Format where
  | text
  | json
  | csv
deriving DecidableEq, Repr

def counterHeadings : List String := ["pkts_rcvd", "pkts_sent", "bytes_rcvd", "bytes_sent"]

/-- The headings of a result. -/
def headings (columns : List Column) : List String := columns.map Column.name ++ counterHeadings

/-- The cell of a column: the name of an address if it has one, and nothing for an absent member. -/
def cell (r : Row) : Column → String
  | .time => (r.key.time.map Timestamp.text).getD ""
  | .interface => r.key.interface.getD ""
  | .source => (r.sourceName.or (r.key.source.map Address.text)).getD ""
  | .destination => (r.destinationName.or (r.key.destination.map Address.text)).getD ""
  | .port => (r.key.port.map fun p => Decimal.text p.toNat).getD ""
  | .protocol => (r.key.protocol.map Protocol.text).getD ""

def counterCells (c : Counters) : List String :=
  [c.packetsReceived, c.packetsSent, c.bytesReceived, c.bytesSent].map fun n => Decimal.text n.toNat

def cells (columns : List Column) (r : Row) : List String := columns.map (cell r) ++ counterCells r.counters

/-- A text and a line feed. -/
def line (s : String) : String := s ++ "\n"

end FlowArchive.Report
