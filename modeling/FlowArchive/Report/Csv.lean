import FlowArchive.Report.Cells

/-!
# Lists of values between commas

A heading line, and a line for each row. Cells are written as they are.
-/

namespace FlowArchive.Report.Csv

/-- Cells between commas. -/
def record (cells : List String) : String := line (",".intercalate cells)

def result (r : QueryResult) : String :=
  record (headings r.columns) ++ String.join (r.rows.map fun row => record (cells r.columns row))

def interfaceCells (i : InterfaceInfo) : List String :=
  [i.name, Decimal.text i.flows.toNat, Decimal.text i.traffic.toNat, Decimal.textInt i.first.toInt]

def interfaces (is : List InterfaceInfo) : String :=
  record ["iface", "flow_count", "traffic", "begin"] ++ String.join (is.map fun i => record (interfaceCells i))

end FlowArchive.Report.Csv
