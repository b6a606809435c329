import FlowArchive.Proofs.ReadableRecords
import FlowArchive.Proofs.LedgerAgreement

/-!
# Reading reports back

Numbers, addresses, protocols, times and headings need no quotes. A report of values between commas is read back as its
cells exactly if the names that it shows, those of interfaces and those of hosts, need none either.
-/

namespace FlowArchive

open Report.Csv (isMark IsPlain)

variable {c : Char}

/-! ## Cells that need no quotes -/

theorem Decimal.isMark_of_isDigit (digit : Decimal.isDigit c = true) : isMark c = false := by
  obtain ⟨d, small, rfl⟩ := Decimal.exists_digitChar digit
  exact (by decide : ∀ d < 10, isMark (Decimal.digitChar d) = false) d small

theorem Decimal.isPlain_text (n : Nat) : IsPlain (Decimal.text n) := by
  intro c member
  rw [Decimal.text, String.toList_ofList] at member
  exact Decimal.isMark_of_isDigit (Decimal.isDigit_of_mem_digits member)

theorem Decimal.isMark_of_mem_printInt {i : Int} (member : c ∈ Decimal.printInt i) : isMark c = false := by
  rcases Decimal.mem_printInt member with rfl | digit
  · rfl
  · exact Decimal.isMark_of_isDigit digit

theorem Decimal.isPlain_textInt (i : Int) : IsPlain (Decimal.textInt i) := by
  intro c member
  rw [Decimal.textInt, String.toList_ofList] at member
  exact Decimal.isMark_of_mem_printInt member

theorem Address.isPlain_text (a : Address) : IsPlain a.text := by
  intro c member
  rw [Address.text, String.toList_ofList] at member
  rcases Address.isTextChar_of_mem_print member with rfl | rfl | ⟨d, small, rfl⟩
  · rfl
  · rfl
  · exact (by decide : ∀ d < 16, isMark (Nat.digitChar d) = false) d small

theorem Protocol.isPlain_text (p : UInt8) : IsPlain (Protocol.text p) := by
  rcases Protocol.text_cases p with ⟨q, listed, -, shown⟩ | shown
  · rw [shown]
    exact (by decide : ∀ q ∈ Protocol.named, IsPlain q.1) q listed
  · rw [shown]
    exact Decimal.isPlain_text _

namespace Date

theorem isMark_of_mem_padded {places n : Nat} (member : c ∈ padded places n) : isMark c = false :=
  Decimal.isMark_of_isDigit (isDigit_padded member)

theorem isMark_of_mem_printYear {year : Int} (member : c ∈ printYear year) : isMark c = false := by
  unfold printYear at member
  split_ifs at member
  · rcases List.mem_cons.1 member with rfl | digit
    · rfl
    · exact isMark_of_mem_padded digit
  · rcases List.mem_cons.1 member with rfl | digit
    · rfl
    · exact isMark_of_mem_padded digit
  · exact isMark_of_mem_padded member

end Date

theorem Timestamp.isPlain_text (t : Timestamp) : IsPlain t.text := by
  intro c member
  rw [Timestamp.text, String.toList_ofList, Timestamp.print] at member
  split_ifs at member
  · simp only [Date.print, Timestamp.printTimeOfDay, List.mem_append, List.mem_cons, or_assoc] at member
    rcases member with year | rfl | month | rfl | day | rfl | hour | rfl | minute | rfl | second
    · exact Date.isMark_of_mem_printYear year
    · rfl
    · exact Date.isMark_of_mem_padded month
    · rfl
    · exact Date.isMark_of_mem_padded day
    · rfl
    · exact Date.isMark_of_mem_padded hour
    · rfl
    · exact Date.isMark_of_mem_padded minute
    · rfl
    · exact Date.isMark_of_mem_padded second
  · exact Decimal.isMark_of_mem_printInt member

namespace Report

variable {row : Row} {columns : List Column}

theorem isPlain_headings (columns : List Column) : ∀ s ∈ headings columns, IsPlain s := by
  refine List.forall_mem_append.2 ⟨List.forall_mem_map.2 fun c _ => ?_, by decide⟩
  cases c <;> decide

theorem isPlain_counterCells (c : Counters) : ∀ s ∈ counterCells c, IsPlain s :=
  List.forall_mem_map.2 fun _ _ => Decimal.isPlain_text _

/-- The name in a cell that is shown as it was given: that of the interface or that of a host. -/
def givenName (row : Row) : Column → Option String
  | .interface => row.key.interface
  | .source => row.sourceName
  | .destination => row.destinationName
  | .time | .port | .protocol => none

theorem isPlain_empty : IsPlain "" := by decide

theorem isPlain_getD {α : Type} {text : α → String} (plain : ∀ a, IsPlain (text a)) (o : Option α) :
    IsPlain ((o.map text).getD "") := by
  cases o with
  | none => exact isPlain_empty
  | some a => exact plain a

theorem isPlain_named {α : Type} {text : α → String} (plain : ∀ a, IsPlain (text a)) (name : Option String)
    (o : Option α) : IsPlain ((name.or (o.map text)).getD "") ↔ ∀ s ∈ name, IsPlain s := by
  cases name with
  | none => simpa using isPlain_getD plain o
  | some s => simp

/-- A cell needs quotes only for the name in it. -/
theorem isPlain_cell (row : Row) (c : Column) : IsPlain (cell row c) ↔ ∀ s ∈ givenName row c, IsPlain s := by
  cases c with
  | time => simpa [cell, givenName] using isPlain_getD Timestamp.isPlain_text row.key.time
  | port => simpa [cell, givenName] using isPlain_getD (fun p : UInt16 => Decimal.isPlain_text p.toNat) row.key.port
  | protocol => simpa [cell, givenName] using isPlain_getD Protocol.isPlain_text row.key.protocol
  | source => exact isPlain_named Address.isPlain_text row.sourceName row.key.source
  | destination => exact isPlain_named Address.isPlain_text row.destinationName row.key.destination
  | interface =>
    cases name : row.key.interface with
    | none => simpa [cell, givenName, name] using isPlain_empty
    | some s => simp [cell, givenName, name]

theorem isPlain_cells : (∀ s ∈ cells columns row, IsPlain s) ↔ ∀ c ∈ columns, ∀ s ∈ givenName row c, IsPlain s := by
  rw [cells, List.forall_mem_append, List.forall_mem_map, and_iff_left (isPlain_counterCells row.counters)]
  exact forall₂_congr fun c _ => isPlain_cell row c

/-! ## Reports that read back -/

namespace Csv

/-- A text is a line of headings and a line for each row, of a number of values each, and these are read of it. -/
structure ReadsBack (text : String) (headings : List String) (rows : List (List String)) (width : Nat) : Prop where
  reads : read text = some (headings :: rows)
  widths : ∀ cells ∈ headings :: rows, cells.length = width

variable {hs : List String} {rows : List (List String)} {width : Nat}

theorem readsBack_iff (widths : ∀ cells ∈ hs :: rows, cells.length = width + 1) (plain : ∀ v ∈ hs, IsPlain v) :
    ReadsBack (record hs ++ String.join (rows.map record)) hs rows (width + 1) ↔
      ∀ cells ∈ rows, ∀ v ∈ cells, IsPlain v := by
  have filled : ∀ cells ∈ hs :: rows, cells ≠ [] := by
    rintro cells member rfl
    cases widths [] member
  have reads := read_records_iff filled
  rw [List.map_cons, String.join_cons, List.forall_mem_cons, and_iff_right plain] at reads
  exact ⟨fun back => reads.1 back.reads, fun bare => ⟨reads.2 bare, widths⟩⟩

theorem length_cells (columns : List Column) (row : Row) : (cells columns row).length = columns.length + 4 := by
  simp [cells, counterCells]

theorem length_headings (columns : List Column) : (headings columns).length = columns.length + 4 := by
  simp [headings, counterHeadings]

/-- The report of a result is read back exactly if no name of an interface or a host in it needs quotes, and the list of
interfaces exactly if no name of an interface does. -/
theorem reports_read_back (r : QueryResult) (is : List InterfaceInfo) :
    (ReadsBack (result r) (headings r.columns) (r.rows.map (cells r.columns)) (r.columns.length + 4) ↔
      ∀ row ∈ r.rows, ∀ c ∈ r.columns, ∀ name ∈ givenName row c, IsPlain name) ∧
    (ReadsBack (interfaces is) ["iface", "flow_count", "traffic", "begin"] (is.map interfaceCells) 4 ↔
      ∀ i ∈ is, IsPlain i.name) := by
  constructor
  · have widths : ∀ vs ∈ headings r.columns :: r.rows.map (cells r.columns), vs.length = r.columns.length + 3 + 1 :=
      List.forall_mem_cons.2 ⟨length_headings _, List.forall_mem_map.2 fun row _ => length_cells _ row⟩
    have back := readsBack_iff widths (isPlain_headings r.columns)
    rw [List.map_map, List.forall_mem_map] at back
    exact back.trans (forall₂_congr fun row _ => isPlain_cells)
  · have widths : ∀ vs ∈ ["iface", "flow_count", "traffic", "begin"] :: is.map interfaceCells, vs.length = 3 + 1 :=
      List.forall_mem_cons.2 ⟨rfl, List.forall_mem_map.2 fun i _ => rfl⟩
    have back := readsBack_iff widths (by decide)
    rw [List.map_map, List.forall_mem_map] at back
    refine back.trans (forall₂_congr fun i _ => ?_)
    simp [interfaceCells, Decimal.isPlain_text, Decimal.isPlain_textInt]

/-! ### An interface with a comma in its name -/

open Archive

def oneByte : Flow := ⟨.v4 0, .v4 0, 80, 6, ⟨0, 0, 0, 1⟩⟩

def commaDisk : Disk := ((newArchive.writeBlock [] "eth0,eth1" 5 [oneByte]).runOn newDisk).2

def commaQuery : Query := Query.all .any ⟨[.interface, .port], by decide, by decide⟩

/-- The archive takes the name, and of both reports it is read as two values. -/
theorem comma_splits_name :
    ((newArchive.writeBlock [] "eth0,eth1" 5 [oneByte]).runOn newDisk).1 = .ok (describe 5 [oneByte]) ∧
    (∃ r, ((newArchive.query (.ofHosts []) commaQuery).runOn commaDisk).1 = .ok r ∧
      r.rows.map (cells r.columns) = [["eth0,eth1", "80", "0", "0", "0", "1"]] ∧
      read (result r) = some [headings r.columns, ["eth0", "eth1", "80", "0", "0", "0", "1"]] ∧
      ¬ ReadsBack (result r) (headings r.columns) (r.rows.map (cells r.columns)) (r.columns.length + 4)) ∧
    ∃ is, (newArchive.listInterfaces.runOn commaDisk).1 = .ok is ∧
      is.map interfaceCells = [["eth0,eth1", "1", "1", "5"]] ∧
      read (interfaces is) = some [["iface", "flow_count", "traffic", "begin"], ["eth0", "eth1", "1", "1", "5"]] ∧
      ¬ ReadsBack (interfaces is) ["iface", "flow_count", "traffic", "begin"] (is.map interfaceCells) 4 := by
  have wrote : ((newArchive.writeBlock [] "eth0,eth1" 5 [oneByte]).runOn newDisk).1 = .ok (describe 5 [oneByte]) :=
    Action.toOption_eq_some.1 (by decide +kernel)
  have answered : ((newArchive.query (.ofHosts []) commaQuery).runOn commaDisk).1.toOption.map
      (fun r => (r.columns, r.rows.map (cells r.columns), result r)) =
      some ([.interface, .port], [["eth0,eth1", "80", "0", "0", "0", "1"]],
        "iface,dport,pkts_rcvd,pkts_sent,bytes_rcvd,bytes_sent\neth0,eth1,80,0,0,0,1\n") := by decide +kernel
  have listed : (newArchive.listInterfaces.runOn commaDisk).1 = .ok [⟨"eth0,eth1", 1, 1, 5⟩] :=
    Action.toOption_eq_some.1 (by decide +kernel)
  have split : read (interfaces [⟨"eth0,eth1", 1, 1, 5⟩]) =
      some [["iface", "flow_count", "traffic", "begin"], ["eth0", "eth1", "1", "1", "5"]] := by decide +kernel
  obtain ⟨r, found, shown⟩ := Option.map_eq_some_iff.1 answered
  obtain ⟨columns, rows, text⟩ : _ ∧ _ ∧ _ := by simpa only [Prod.mk.injEq] using shown
  have reads : read (result r) = some [headings r.columns, ["eth0", "eth1", "80", "0", "0", "0", "1"]] := by
    rw [text, columns]
    decide +kernel
  refine ⟨wrote, ⟨r, Action.toOption_eq_some.1 found, rows, reads, fun back => ?_⟩,
    _, listed, by decide +kernel, split, fun back => ?_⟩
  · have cut := reads.symm.trans (rows ▸ back.reads)
    exact absurd cut (by simp)
  · exact absurd (split.symm.trans back.reads) (by decide +kernel)

end Csv

end Report

end FlowArchive
