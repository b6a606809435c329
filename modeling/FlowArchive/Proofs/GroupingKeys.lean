import FlowArchive.Proofs.DrillDown
import FlowArchive.Proofs.QueryReference

/-!
# What keys tell

Columns are chosen one after the other, and the bit of a column says whether it was chosen before. So a grouping has
the columns of a list without their repetitions, and its bits are theirs. Its keys tell the values of these columns
and nothing else: two sightings have the same key if they agree on every column, and only then.
-/

namespace FlowArchive

/-! ## The chosen columns -/

namespace Choice

theorem columns_add (s : Choice) (c : Column) :
    (s.add c).columns = if c ∈ s.columns then s.columns else s.columns ++ [c] := by
  by_cases chosen : c ∈ s.columns
  · rw [add, dif_neg (mt mask_and_bit_eq_zero_iff.1 (not_not_intro chosen)), if_pos chosen]
  · rw [add, dif_pos (mask_and_bit_eq_zero_iff.2 chosen), if_neg chosen]

/-- A list adds what is new in it, without repetitions. -/
theorem columns_foldl_add (cs : List Column) (s : Choice) :
    (cs.foldl add s).columns = s.columns ++ (cs.filter (· ∉ s.columns)).eraseDups := by
  induction cs generalizing s with
  | nil => simp
  | cons c cs ih =>
    rw [List.foldl_cons, ih, columns_add]
    by_cases chosen : c ∈ s.columns
    · rw [if_pos chosen, List.filter_cons_of_neg (by simpa using chosen)]
    · have rest : cs.filter (· ∉ s.columns ++ [c]) = (cs.filter (· ∉ s.columns)).filter fun d => !d == c := by
        rw [List.filter_filter]
        exact List.filter_congr fun d _ => by rw [Bool.eq_iff_iff]; simp [and_comm]
      rw [if_neg chosen, List.filter_cons_of_pos (by simpa using chosen), List.eraseDups_cons, rest, List.append_assoc,
        List.singleton_append]

@[simp] theorem columns_ofColumns (cs : List Column) : (ofColumns cs).columns = cs.eraseDups := by
  rw [ofColumns, columns_foldl_add]
  simp [none]

end Choice

/-! ## Sightings and their keys -/

/-- Two sightings have the same value in a column. -/
def Column.Agree (x y : Sighting) : Column → Prop
  | .source => x.flow.source = y.flow.source
  | .destination => x.flow.destination = y.flow.destination
  | .port => x.flow.port = y.flow.port
  | .protocol => x.flow.protocol = y.flow.protocol
  | .interface => x.interface = y.interface
  | .time => x.time = y.time

namespace Grouping

variable {g : Grouping} {x y : Sighting}

theorem keep_eq_keep_iff {α : Type} {c : Column} {a b : α} : g.keep c a = g.keep c b ↔ (c ∈ g.columns → a = b) := by
  by_cases chosen : c ∈ g.columns
  · simp [keep_of_mem chosen, chosen]
  · simp [keep_of_not_mem chosen, chosen]

/-- Sightings have the same key if and only if they agree on every column. -/
theorem key_eq_key_iff : x.key g = y.key g ↔ ∀ c ∈ g.columns, c.Agree x y := by
  simp only [Sighting.key, keyOf, Key.mk.injEq, keep_eq_keep_iff]
  constructor
  · rintro ⟨time, interface, source, destination, port, protocol⟩ c chosen
    cases c with
    | source => exact source chosen
    | destination => exact destination chosen
    | port => exact port chosen
    | protocol => exact protocol chosen
    | interface => exact interface chosen
    | time => exact time chosen
  · intro agree
    exact ⟨agree .time, agree .interface, agree .source, agree .destination, agree .port, agree .protocol⟩

theorem isSome_keep {α : Type} {c : Column} {a : α} : (g.keep c a).isSome = true ↔ c ∈ g.columns := by
  by_cases chosen : c ∈ g.columns
  · simp [keep_of_mem chosen, chosen]
  · simp [keep_of_not_mem chosen, chosen]

/-- A key has values in the columns that are grouped by and in no others. -/
theorem has_key_iff {c : Column} : (x.key g).has c = true ↔ c ∈ g.columns := by
  cases c <;> exact isSome_keep

/-- Every list of columns that is not empty gives a grouping by its columns without later repetitions. The bits that
were set on the way are those of these columns, and asking for a bit is asking for the column. Sightings have the same
key if and only if they agree on every column of the grouping, and a key has values in these columns and no others. -/
theorem keys_tell_columns {cs : List Column} (filled : cs ≠ []) :
    ∃ g, ofColumns cs = .ok g ∧ g.columns = cs.eraseDups ∧ (Choice.ofColumns cs).mask = g.mask ∧
      (∀ c, g.contains c = true ↔ c ∈ g.columns) ∧
      (∀ x y : Sighting, x.key g = y.key g ↔ ∀ c ∈ g.columns, c.Agree x y) ∧
      ∀ (x : Sighting) c, (x.key g).has c = true ↔ c ∈ g.columns := by
  have columns := Choice.columns_ofColumns cs
  have some : (Choice.ofColumns cs).columns ≠ [] := by
    obtain ⟨c, rest, rfl⟩ := List.exists_cons_of_ne_nil filled
    rw [columns, List.eraseDups_cons]
    exact List.cons_ne_nil _ _
  exact ⟨⟨_, (Choice.ofColumns cs).nodup, some⟩, dif_neg some, columns, (Choice.ofColumns cs).mask_eq,
    fun c => contains_iff, fun x y => key_eq_key_iff, fun x c => has_key_iff⟩

/-- Two flows to one port, with the port, the time and the port once more. -/
theorem keys_tell_columns_repeated :
    let cs : List Column := [.port, .time, .port]
    let x : Sighting := ⟨"eth0", 100, ⟨.v4 1, .v4 2, 80, 6, .zero⟩⟩
    let y : Sighting := ⟨"eth1", 100, ⟨.v6 1, .v4 3, 80, 17, .zero⟩⟩
    cs ≠ [] ∧ ∃ g, ofColumns cs = .ok g ∧ g.columns = [.port, .time] ∧ g.contains .port = true ∧ x.key g = y.key g ∧
      (x.key g).has .time = true := by
  intro cs x y
  have filled : cs ≠ [] := by decide
  obtain ⟨g, made, columns, -, contains, same, has⟩ := keys_tell_columns filled
  have two : g.columns = [.port, .time] := columns.trans (by decide)
  refine ⟨filled, g, made, two, (contains _).2 (by simp [two]), (same x y).2 fun c chosen => ?_,
    (has x _).2 (by simp [two])⟩
  rw [two] at chosen
  rcases List.mem_pair.1 chosen with rfl | rfl <;> rfl

end Grouping

end FlowArchive
