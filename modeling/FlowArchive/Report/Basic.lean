import FlowArchive.Report.Csv
import FlowArchive.Report.Document
import FlowArchive.Report.Table

/-!
# Reports

What the command line prints: a result of a query, or a list of interfaces, in one of three forms.
-/

namespace FlowArchive.Report

def ofResult (r : QueryResult) : Format → String
  | .text => Table.result r
  | .json => line (Document.result r).text
  | .csv => Csv.result r

def ofInterfaces (is : List InterfaceInfo) : Format → String
  | .text => Table.interfaces is
  | .json => line (Document.interfaces is).text
  | .csv => Csv.interfaces is

end FlowArchive.Report
