import FlowArchive.Flow.Basic
import FlowArchive.Flow.Column
import FlowArchive.Time.Timestamp

/-!
# Grouping

A grouping is a choice of columns in an order, without repetition. It maps a flow to its key, which holds the
values of the chosen columns and nothing else. Keys are ordered member by member, an absent member first.
-/

namespace FlowArchive

/-- Columns that were chosen, each once, in their order and as a set of bits. -/
structure Choice where
  columns : List Column
  mask : UInt8
  nodup : columns.Nodup
  mask_eq : mask = Column.mask columns

namespace Choice

variable {s : Choice} {c : Column}

/-- No column. -/
def none : Choice := ⟨[], 0, .nil, rfl⟩

theorem nodup_append_singleton {cs : List Column} (nodup : cs.Nodup) (other : c ∉ cs) : (cs ++ [c]).Nodup := by
  refine List.nodup_append.2 ⟨nodup, by simp, ?_⟩
  rintro d chosen e last rfl
  exact other (List.mem_singleton.1 last ▸ chosen)

/-- The bit of a column is set if and only if the column was chosen. -/
theorem mask_and_bit_eq_zero_iff : s.mask &&& c.bit = 0 ↔ c ∉ s.columns := by
  rw [← Column.mask_and_bit_ne_zero_iff, s.mask_eq, Decidable.not_not]

/-- Chooses a column unless its bit is set. -/
def add (s : Choice) (c : Column) : Choice :=
  if new : s.mask &&& c.bit = 0 then
    ⟨s.columns ++ [c], s.mask ||| c.bit, nodup_append_singleton s.nodup (mask_and_bit_eq_zero_iff.1 new),
      by rw [s.mask_eq, Column.mask_append_singleton]⟩
  else s

/-- Chooses columns one after the other. -/
def ofColumns (cs : List Column) : Choice := cs.foldl add none

end Choice

/-- Columns to group by, at least one and each once. -/
structure Grouping where
  columns : List Column
  nodup : columns.Nodup
  ne_nil : columns ≠ []

namespace Grouping

/-- A list of columns that cannot be grouped by. -/
inductive Flaw where
  | noColumn
  | unknownColumn (name : String)
deriving DecidableEq, Repr

def Flaw.message : Flaw → String
  | noColumn => "At least one column is required"
  | unknownColumn name => "Unknown column: " ++ name

/-- The grouping by a list of columns, of which repetitions are dropped. -/
def ofColumns (cs : List Column) : Except Flaw Grouping :=
  let chosen := Choice.ofColumns cs
  if h : chosen.columns = [] then .error .noColumn
  else .ok ⟨chosen.columns, chosen.nodup, h⟩

/-- The groupings with a name of their own. -/
def preset? : String → Option (List Column)
  | "talk_src" => some [.source]
  | "talk_dst" => some [.destination]
  | "talk_conv" => some [.source, .destination]
  | "apps_port" => some [.port, .protocol]
  | "agg_talk_port" => some [.source, .destination, .port, .protocol]
  | "raw" => some [.time, .interface, .source, .destination, .port, .protocol]
  | _ => none

/-- The columns of a list of names, of which blank ones are skipped. -/
def columnsOfNames : List String → Except Flaw (List Column)
  | [] => .ok []
  | name :: rest =>
    if (Text.trim name).isEmpty then columnsOfNames rest
    else
      match Column.ofName? name with
      | none => .error (.unknownColumn (Text.trim name))
      | some c => (columnsOfNames rest).map (c :: ·)

/-- Reads the name of a preset or column names between commas. -/
def ofText (s : String) : Except Flaw Grouping :=
  match preset? (Text.trim s) with
  | some cs => ofColumns cs
  | none => columnsOfNames (Text.split ',' s) >>= ofColumns

/-- The columns as a set of bits. -/
def mask (g : Grouping) : UInt8 := Column.mask g.columns

def contains (g : Grouping) (c : Column) : Bool := g.mask &&& c.bit != 0

theorem contains_iff {g : Grouping} {c : Column} : g.contains c = true ↔ c ∈ g.columns := by
  rw [contains, bne_iff_ne, mask, Column.mask_and_bit_ne_zero_iff]

/-- Whether results are kept apart by time. -/
def hasTime (g : Grouping) : Bool := g.contains .time

end Grouping

/-- The values of the columns that flows are grouped by; other members are absent. -/
structure Key where
  time : Option Timestamp
  interface : Option String
  source : Option Address
  destination : Option Address
  port : Option UInt16
  protocol : Option UInt8
deriving DecidableEq

namespace Key

/-- The key of a grouping by no column. -/
def blank : Key := ⟨none, none, none, none, none, none⟩

instance : Inhabited Key := ⟨blank⟩

/-- Time decides first, then the interface, the addresses, the port and the protocol. -/
def order : Key → Key → Ordering :=
  compareLex (compareOn time) <| compareLex (compareOn interface) <| compareLex (compareOn source) <|
    compareLex (compareOn destination) <| compareLex (compareOn port) (compareOn protocol)

instance : Ord Key := ⟨order⟩

instance : Std.TransOrd Key := by
  have law : Std.TransCmp order := by unfold order; infer_instance
  exact law

instance : Std.LawfulEqOrd Key where
  eq_of_compare {a b} h := by
    have members : order a b = .eq := h
    simp only [order, compareLex, compareOn, Ordering.then_eq_eq, Std.LawfulEqCmp.compare_eq_iff_eq] at members
    cases a; cases b; simp_all

/-- Whether a key comes before another or is the same. -/
def le (a b : Key) : Bool := (compare a b).isLE

end Key

namespace Grouping

/-- The value of a column if it is one that flows are grouped by. -/
def keep {α : Type} (g : Grouping) (c : Column) (a : α) : Option α :=
  if g.contains c then some a else none

theorem keep_of_mem {α : Type} {g : Grouping} {c : Column} (chosen : c ∈ g.columns) (a : α) : g.keep c a = some a :=
  if_pos (contains_iff.2 chosen)

theorem keep_of_not_mem {α : Type} {g : Grouping} {c : Column} (other : c ∉ g.columns) (a : α) : g.keep c a = none :=
  if_neg fun chosen => other (contains_iff.1 chosen)

def keyOf (g : Grouping) (interface : String) (time : Timestamp) (f : Flow) : Key where
  time := g.keep .time time
  interface := g.keep .interface interface
  source := g.keep .source f.source
  destination := g.keep .destination f.destination
  port := g.keep .port f.port
  protocol := g.keep .protocol f.protocol

end Grouping

end FlowArchive
