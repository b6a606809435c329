import FlowArchive.Archive.Summary
import FlowArchive.Proofs.JsonRoundTrip
import FlowArchive.Proofs.Table

/-!
# Documents of summaries

The document of a summary is read back as that summary, whatever names the interfaces have.
-/

namespace FlowArchive.Summary

open JsonReader (Takes Stops ascii)
open Json (printAt)

variable {rest : Bytes} {level : Nat}

/-- An object behind a blank is the record of its fields. -/
theorem record_printed {σ : Type} {fields : List (JsonReader.RecordField σ)} {init final : σ}
    {members : List (String × Json)} (takes : Takes (JsonReader.byName fields) (level + 1) init members final) :
    JsonReader.record fields init (Bytes.ofChars (printAt level (.object members)) ++ rest) = some (final, rest) := by
  have front : ∃ more, Bytes.ofChars (printAt level (.object members)) ++ rest = ascii '\x7b' :: more := by
    cases members <;> rw [printAt] <;> exact ⟨_, rfl⟩
  obtain ⟨more, front⟩ := front
  have notArray : JsonReader.mark '[' (Bytes.ofChars (printAt level (.object members)) ++ rest) = none := by
    rw [front, JsonReader.mark_here (by decide), if_neg (by decide)]
  rw [JsonReader.record, notArray]
  exact JsonReader.object_printed takes

theorem record_blank {σ : Type} (fields : List (JsonReader.RecordField σ)) (init : σ) (s : Bytes) :
    JsonReader.record fields init (ascii ' ' :: s) = JsonReader.record fields init s := by
  have same : ∀ c, JsonReader.mark c (ascii ' ' :: s) = JsonReader.mark c s :=
    fun c => JsonReader.mark_blank (by decide) s
  simp only [JsonReader.record, JsonReader.object, JsonReader.items, same]

theorem takes_interface (s : InterfaceSummary) : Takes (JsonReader.byName interfaceFields) level
    ⟨none, none, none⟩ [("flow_count", .natural s.flows.toNat), ("traffic", .natural s.traffic.toNat),
      ("begin", .integer s.first.toInt)] ⟨some s.flows, some s.traffic, some s.first⟩ := by
  have third : Takes (JsonReader.byName interfaceFields) level ⟨some s.flows, some s.traffic, none⟩
      [("begin", .integer s.first.toInt)] ⟨some s.flows, some s.traffic, some s.first⟩ := by
    refine .cons (fun rest stops => ?_) (.nil _)
    show (JsonReader.readInt64 _).map _ = _
    rw [JsonReader.readInt64_printed _ stops]
    rfl
  have second : Takes (JsonReader.byName interfaceFields) level ⟨some s.flows, none, none⟩
      [("traffic", .natural s.traffic.toNat), ("begin", .integer s.first.toInt)]
      ⟨some s.flows, some s.traffic, some s.first⟩ := by
    refine .cons (fun rest stops => ?_) third
    show (JsonReader.readUInt64 _).map _ = _
    rw [JsonReader.readUInt64_printed _ stops]
    rfl
  refine .cons (fun rest stops => ?_) second
  show (JsonReader.readUInt64 _).map _ = _
  rw [JsonReader.readUInt64_printed _ stops]
  rfl

theorem readInterface_printed (s : InterfaceSummary) :
    readInterface (ascii ' ' :: (Bytes.ofChars (printAt level (interfaceJson s)) ++ rest)) = some (s, rest) := by
  rw [readInterface, record_blank, interfaceJson, record_printed (takes_interface s)]
  rfl

/-- The interfaces of a document are entered one after the other. -/
theorem takes_interfaces (l : List (String × InterfaceSummary)) (t : Table String InterfaceSummary) :
    Takes (fun name t s => (readInterface s).map fun p => (t.insert name p.1, p.2)) level t
      (l.map fun e => (e.1, interfaceJson e.2)) (l.foldl (fun t e => t.insert e.1 e.2) t) := by
  induction l generalizing t with
  | nil => exact .nil t
  | cons e others ih =>
    refine .cons (fun rest stops => ?_) (ih (t.insert e.1 e.2))
    rw [readInterface_printed]
    rfl

theorem readInterfaces_printed (t : Table String InterfaceSummary) :
    readInterfaces (ascii ' ' :: (Bytes.ofChars (printAt level
      (.object (t.entries.map fun e => (e.1, interfaceJson e.2)))) ++ rest)) = some (t, rest) := by
  have blank : ∀ s, readInterfaces (ascii ' ' :: s) = readInterfaces s := by
    intro s
    have same : ∀ c, JsonReader.mark c (ascii ' ' :: s) = JsonReader.mark c s :=
      fun c => JsonReader.mark_blank (by decide) s
    simp only [readInterfaces, JsonReader.object, JsonReader.items, same]
  rw [blank, readInterfaces, JsonReader.object_printed (takes_interfaces t.entries .empty), Table.foldl_insert_entries]

/-- The document of a summary is read back as that summary. -/
theorem read_write (s : Summary) : read? s.write = some s := by
  have takes : Takes (JsonReader.byName documentFields) 1 none
      [("interfaces", .object (s.interfaces.entries.map fun e => (e.1, interfaceJson e.2)))] (some s.interfaces) := by
    refine .cons (fun rest _ => ?_) (.nil _)
    show (readInterfaces _).map _ = _
    rw [readInterfaces_printed]
    rfl
  have read : reader s.write = some (s, []) := by
    have whole : JsonReader.record documentFields none (Bytes.ofChars (printAt 0 (.object
        [("interfaces", .object (s.interfaces.entries.map fun e => (e.1, interfaceJson e.2)))])) ++ []) =
          some (some s.interfaces, []) := record_printed takes
    rw [List.append_nil] at whole
    rw [reader, write, Json.print, json, whole]
    rfl
  rw [read?, JsonReader.whole, read]
  rfl

end FlowArchive.Summary
