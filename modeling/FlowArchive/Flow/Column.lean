import FlowArchive.Text.Blank
import FlowArchive.Text.Case

/-!
# Columns

What flows are grouped by: four members of a flow, the interface that saw it and the time of its block.
-/

namespace FlowArchive

inductive Column where
  | source
  | destination
  | port
  | protocol
  | interface
  | time
deriving DecidableEq, Repr, Inhabited

namespace Column

def name : Column → String
  | source => "sip"
  | destination => "dip"
  | port => "dport"
  | protocol => "proto"
  | interface => "iface"
  | time => "time"

/-- The bit that stands for a column in a set of columns. -/
def bit : Column → UInt8
  | source => 1
  | destination => 2
  | port => 4
  | protocol => 8
  | interface => 16
  | time => 32

/-- The set of the bits of some columns. -/
def mask (cs : List Column) : UInt8 := cs.foldl (fun m c => m ||| c.bit) 0

/-- The columns, the members of a flow first. -/
def all : List Column := [source, destination, port, protocol, interface, time]

/-- The column of a name in any letter case, with or without blanks around it. -/
def ofName? (s : String) : Option Column :=
  match Text.foldName (Text.trim s) with
  | "sip" | "src" => some source
  | "dip" | "dst" => some destination
  | "dport" => some port
  | "proto" => some protocol
  | "iface" => some interface
  | "time" => some time
  | _ => none

/-! ## Columns as bits -/

theorem bit_and_bit_eq_zero_iff {c d : Column} : c.bit &&& d.bit = 0 ↔ c ≠ d := by
  cases c <;> cases d <;> decide

/-- A bit that is set marks its own column and no other one. -/
theorem or_bit_and_bit_ne_zero_iff {m : UInt8} {c d : Column} :
    (m ||| c.bit) &&& d.bit ≠ 0 ↔ m &&& d.bit ≠ 0 ∨ d = c := by
  have parts : (m ||| c.bit) &&& d.bit = m &&& d.bit ||| c.bit &&& d.bit :=
    UInt8.toBitVec_inj.1 BitVec.and_or_distrib_right
  rw [parts, ne_eq, UInt8.or_eq_zero_iff, bit_and_bit_eq_zero_iff, Decidable.not_and_iff_not_or_not,
    Decidable.not_not, @eq_comm _ c d]

@[simp] theorem mask_append_singleton (cs : List Column) (c : Column) : mask (cs ++ [c]) = mask cs ||| c.bit := by
  simp [mask]

/-- The columns whose bits are set are those of the list. -/
theorem mask_and_bit_ne_zero_iff {cs : List Column} {d : Column} : mask cs &&& d.bit ≠ 0 ↔ d ∈ cs := by
  have collected : ∀ m : UInt8, cs.foldl (fun m c => m ||| c.bit) m &&& d.bit ≠ 0 ↔ m &&& d.bit ≠ 0 ∨ d ∈ cs := by
    induction cs with
    | nil => simp
    | cons c cs ih =>
      intro m
      rw [List.foldl_cons, ih, or_bit_and_bit_ne_zero_iff, List.mem_cons, or_assoc]
  rw [mask, collected]
  simp

end Column

end FlowArchive
