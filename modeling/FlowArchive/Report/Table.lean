import FlowArchive.Report.Cells

/-!
# Tables

Rows are printed in columns that are aligned at the right, with a line of totals below a blank line and the
size of the result at the end. A column is as wide as its longest cell has bytes, while cells are filled up
by characters.
-/

namespace FlowArchive.Report.Table

/-- A text with blanks in front, up to a number of characters. -/
def alignRight (width : Nat) (s : String) : String :=
  String.ofList (List.replicate (width - s.length) ' ' ++ s.toList)

/-- A text with blanks behind, up to a number of characters. -/
def alignLeft (width : Nat) (s : String) : String :=
  String.ofList (s.toList ++ List.replicate (width - s.length) ' ')

/-- The widths of the columns of a table: those of the longest cells in bytes. -/
def widths (rows : List (List String)) : List Nat :=
  rows.foldl
    (fun ws row => (List.range (max ws.length row.length)).map fun i =>
      max (ws.getD i 0) ((row.map String.utf8ByteSize).getD i 0))
    []

/-- The cells of a row, aligned to widths, two blanks between them. -/
def row (ws : List Nat) (cells : List String) : String :=
  line ("  ".intercalate (List.zipWith alignRight ws cells))

def totalCells (columns : List Column) (totals : Counters) : List String :=
  (match columns with
    | [] => []
    | _ :: rest => "total" :: rest.map fun _ => "") ++ counterCells totals

/-- A result that is not empty. -/
def filled (r : QueryResult) : String :=
  let upper := headings r.columns :: r.rows.map (cells r.columns)
  let totals := totalCells r.columns r.totals
  let ws := widths (upper ++ [totals])
  String.join (upper.map (row ws)) ++ line "" ++ row ws totals ++ line "" ++
    line (Decimal.text r.rows.length ++ " of " ++ Decimal.text r.hits ++ " rows, " ++
      Decimal.text r.blocksScanned ++ " blocks scanned in " ++
      String.ofList (Decimal.printHundredths r.milliseconds) ++ "ms")

def result (r : QueryResult) : String :=
  if r.isEmpty then
    line ("No flows matched the query (" ++ Decimal.text r.blocksScanned ++ " blocks scanned)")
  else filled r

/-- An interface in a line. -/
def interface (i : InterfaceInfo) : String :=
  line (alignLeft 12 i.name ++ " " ++ alignRight 12 (Decimal.text i.flows.toNat) ++ " flows " ++
    alignRight 16 (Decimal.text i.traffic.toNat) ++ " bytes  since " ++ i.first.text)

def interfaces (is : List InterfaceInfo) : String := String.join (is.map interface)

end FlowArchive.Report.Table
