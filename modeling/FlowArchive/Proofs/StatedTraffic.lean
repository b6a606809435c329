import FlowArchive.Proofs.Agreement
import FlowArchive.Proofs.Visibility
import Mathlib.Algebra.Order.BigOperators.Group.List
import Mathlib.Algebra.Order.Group.Nat

/-!
# The traffic that a block states

The traffic of a block is added up flow by flow and stops at the greatest word. What each flow adds are its bytes both
ways, and that sum wraps around. So the block states the true number of bytes, up to the greatest word, as long as no
single flow has moved more than a word can count; a flow that has moved more adds only what is left over.
-/

namespace FlowArchive

/-- Adding up with a bound is adding up and then applying the bound. -/
theorem foldl_addCapped_toNat {α : Type} (count : α → UInt64) (xs : List α) (n : UInt64) :
    (xs.foldl (fun n x => addCapped n (count x)) n).toNat =
      min (n.toNat + (xs.map fun x => (count x).toNat).sum) greatestWord := by
  induction xs generalizing n with
  | nil => exact (Nat.min_eq_left (toNat_le_greatestWord n)).symm
  | cons x rest ih =>
    rw [List.foldl_cons, ih, addCapped_toNat_eq_min, List.map_cons, List.sum_cons]
    omega

namespace Flow

variable {fs : List Flow}

/-- The bytes that a flow has moved both ways, however many. -/
def bytes (f : Flow) : Nat := f.counters.bytesReceived.toNat + f.counters.bytesSent.toNat

/-- The bytes of all flows. -/
def byteSum (fs : List Flow) : Nat := (fs.map bytes).sum

/-- The bytes of all flows, where each flow counts with what is left of its bytes in a word. -/
def wrappedSum (fs : List Flow) : Nat := (fs.map fun f => f.bytes % (greatestWord + 1)).sum

/-- The bytes of each flow fit a word. -/
def EachFits (fs : List Flow) : Prop := ∀ f ∈ fs, f.bytes ≤ greatestWord

theorem totalBytes_toNat (f : Flow) : f.counters.totalBytes.toNat = f.bytes % (greatestWord + 1) :=
  UInt64.toNat_add _ _

theorem traffic_toNat (fs : List Flow) : (traffic fs).toNat = min (wrappedSum fs) greatestWord := by
  have folded := foldl_addCapped_toNat (fun f : Flow => f.counters.totalBytes) fs 0
  simp only [totalBytes_toNat, UInt64.toNat_zero, Nat.zero_add] at folded
  exact folded

theorem wrappedSum_le (fs : List Flow) : wrappedSum fs ≤ byteSum fs :=
  List.sum_le_sum fun f _ => Nat.mod_le f.bytes _

theorem EachFits.wrappedSum_eq (fits : EachFits fs) : wrappedSum fs = byteSum fs := by
  have same : ∀ f ∈ fs, f.bytes % (greatestWord + 1) = f.bytes := fun f member =>
    Nat.mod_eq_of_lt (Nat.lt_succ_of_le (fits f member))
  rw [wrappedSum, byteSum, List.map_congr_left same]

/-- A flow that moved more than a word counts is more than all that a block can state. -/
theorem byteSum_gt (overflow : ¬ EachFits fs) : greatestWord < byteSum fs := by
  simp only [EachFits, not_forall, Nat.not_le] at overflow
  obtain ⟨f, member, more⟩ := overflow
  exact Nat.lt_of_lt_of_le more (List.le_sum_of_mem (List.mem_map_of_mem member))

/-- The traffic is the true sum, up to the greatest word, if and only if no flow overflows or what is left of the flows
reaches the greatest word all the same. -/
theorem traffic_eq_min_iff (fs : List Flow) :
    (traffic fs).toNat = min (byteSum fs) greatestWord ↔ EachFits fs ∨ greatestWord ≤ wrappedSum fs := by
  rw [traffic_toNat]
  constructor
  · intro exact
    refine (em (EachFits fs)).imp_right fun overflow => ?_
    have more := byteSum_gt overflow
    omega
  · rintro (fits | full)
    · rw [fits.wrappedSum_eq]
    · have less := wrappedSum_le fs
      omega

end Flow

namespace Archive

variable {a : Archive} {token : LockToken} {d e : Disk} {i : String} {t : Timestamp} {fs : List Flow} {x : Descriptor}

/-- A write that succeeds appends the entry of what it returns to the index of the partition. -/
theorem index_of_writeBlock (wrote : (a.writeBlock token i t fs).runOn d = (.ok x, e)) :
    ∃ l, e.LeadsTo a.root l ∧ e.content? (l ++ [i, partitionName t.startOfDay, indexName]) =
      some (indexBefore d l i t ++ Index.writeEntry x) := by
  obtain ⟨valid, rfl, b, b', c, s, made, -, stored, indexed, modified⟩ := writeBlock_steps wrote
  have name := isName_of_isInterfaceName valid
  have extended : Disk.Extends d b := by
    have extends_ := Disk.makeDirectories_extends d (a.partitionPath i t)
    rwa [made] at extends_
  -- The archive may be new; its directory is there once that of the partition is.
  obtain ⟨k, inside⟩ := leadsTo_of_storeBlock stored
  obtain ⟨m, above⟩ := Disk.leadsTo_of_walk (isName_partition _) inside.walked
  obtain ⟨l, leads⟩ := Disk.leadsTo_of_walk name above.walked
  obtain ⟨rfl, -, -⟩ := leadsTo_partition leads name (isName_partition _) inside
  obtain ⟨-, -, filed⟩ := file_ok inside stored indexed
  obtain ⟨l', leads', -, ledger⟩ := modify_ok modified
  obtain rfl := (leads.mono filed.keeps).unique leads'
  have place : l ++ [i, partitionName t.startOfDay] ++ [indexName] =
      l ++ [i, partitionName t.startOfDay, indexName] := by simp
  have held := filed.index
  rw [place, ← ledger.rest _ (not_isLedgerFile l _ _ _), extended.content?] at held
  exact ⟨l, leads'.mono ledger.keepsDirectories, Disk.content?_eq_some.2 held⟩

/-- A write that succeeds returns the descriptor that it stores. The traffic in it is what is left of the bytes of each
flow in a word, added up to the greatest word; that is the true sum of the bytes, up to the greatest word, if and only if
no flow overflows or the sum is at its bound all the same. -/
theorem written_traffic (wrote : (a.writeBlock token i t fs).runOn d = (.ok x, e)) :
    (∃ l entry, e.LeadsTo a.root l ∧
      e.content? (l ++ [i, partitionName t.startOfDay, indexName]) = some (indexBefore d l i t ++ entry) ∧
      Index.readEntry entry = .ok (x, entry.length)) ∧
    x.traffic.toNat = min (Flow.wrappedSum fs) greatestWord ∧
    (x.traffic.toNat = min (Flow.byteSum fs) greatestWord ↔
      Flow.EachFits fs ∨ greatestWord ≤ Flow.wrappedSum fs) := by
  obtain ⟨-, rfl, -⟩ := writeBlock_steps wrote
  obtain ⟨l, leads, held⟩ := index_of_writeBlock wrote
  have own := Index.readEntry_writeEntry (describe t fs) []
  rw [List.append_nil] at own
  refine ⟨⟨l, _, leads, held, ?_⟩, Flow.traffic_toNat fs, Flow.traffic_eq_min_iff fs⟩
  rw [own, Index.length_writeEntry]

/-! ### A flow that moved one byte more than a word counts -/

/-- A flow that received the greatest number of bytes and sent one. -/
def overflowingFlow : Flow := { newFlow with counters := ⟨1, 1, 18446744073709551615, 1⟩ }

/-- Written together with the flow that overflows, a flow of seven bytes is all that is stated. -/
theorem written_traffic_overflow :
    ∃ x e, (newArchive.writeBlock [] "eth0" 5 [newFlow, overflowingFlow]).runOn newDisk = (.ok x, e) ∧
      x.traffic = 7 ∧ (∃ l entry, e.LeadsTo newArchive.root l ∧
        e.content? (l ++ ["eth0", partitionName (Timestamp.startOfDay 5), indexName]) =
          some (indexBefore newDisk l "eth0" 5 ++ entry) ∧ Index.readEntry entry = .ok (x, entry.length)) ∧
      x.traffic.toNat = min (Flow.wrappedSum [newFlow, overflowingFlow]) greatestWord ∧
      ¬ Flow.EachFits [newFlow, overflowingFlow] := by
  have wrote : (newArchive.writeBlock [] "eth0" 5 [newFlow, overflowingFlow]).runOn newDisk =
      (.ok (describe 5 [newFlow, overflowingFlow]), _) := Prod.ext (Action.toOption_eq_some.1 (by decide +kernel)) rfl
  obtain ⟨stored, sum, -⟩ := written_traffic wrote
  refine ⟨_, _, wrote, by decide, stored, sum, fun fits => ?_⟩
  exact absurd (fits overflowingFlow (by simp)) (by decide)

/-- A block of the flow that overflows states that nothing was moved. -/
theorem overflow_stated_as_nothing :
    ∃ x e, (newArchive.writeBlock [] "eth0" 5 [overflowingFlow]).runOn newDisk = (.ok x, e) ∧
      x.traffic.toNat = 0 ∧ min (Flow.byteSum [overflowingFlow]) greatestWord = 18446744073709551615 := by
  have wrote : (newArchive.writeBlock [] "eth0" 5 [overflowingFlow]).runOn newDisk =
      (.ok (describe 5 [overflowingFlow]), _) := Prod.ext (Action.toOption_eq_some.1 (by decide +kernel)) rfl
  exact ⟨_, _, wrote, by decide, by decide⟩

end Archive

end FlowArchive
