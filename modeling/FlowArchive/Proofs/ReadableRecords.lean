import FlowArchive.Proofs.DrillDown
import FlowArchive.Proofs.Listing
import FlowArchive.Proofs.PrintedTimes
import FlowArchive.Report.CsvReader

/-!
# Reading values between commas back

What is written by the rules reads back, whatever the values are. Values that are written as they are read back if none
of them needs quotes, and only then: what is read of a text fits in it without quotes, and fills it only if no quote was
read.
-/

namespace FlowArchive.Report.Csv

variable {r r' : Reader} {R rows : List (List String)} {V cells : List String} {cs s rest : List Char} {c : Char}
  {p : Place} {n : Nat}

/-! ## What is written by the rules -/

theorem spell_of_plain {v : String} (plain : IsPlain v) : spell v = v := if_pos plain

namespace Reader

theorem run_append : r.run (s ++ rest) = (r.run s).bind fun r' => r'.run rest := List.foldlM_append

theorem run_cons : r.run (c :: rest) = (r.step c).bind fun r' => r'.run rest := List.foldlM_cons

theorem run_bare (plain : ∀ c ∈ s, isMark c = false) :
    run ⟨R, V, cs, .bare⟩ s = some ⟨R, V, cs ++ s, .bare⟩ := by
  induction s generalizing cs with
  | nil => simp [run]
  | cons c s ih =>
    obtain ⟨first, others⟩ := List.forall_mem_cons.1 plain
    simp [run_cons, step, first, add, ih others]

theorem run_double : run ⟨R, V, cs, .quoted⟩ (double c) = some ⟨R, V, cs ++ [c], .quoted⟩ := by
  by_cases quote : c = '"'
  · subst quote
    rfl
  · simp [double, quote, run, step, add]

theorem run_quoted : run ⟨R, V, cs, .quoted⟩ (s.flatMap double) = some ⟨R, V, cs ++ s, .quoted⟩ := by
  induction s generalizing cs with
  | nil => simp [run]
  | cons c s ih => rw [List.flatMap_cons, run_append, run_double, Option.bind_some, ih, List.append_assoc]; rfl

/-- Behind a value, or behind its quotes. -/
theorem run_spell (v : String) : ∃ p, p ≠ .quoted ∧ p ≠ .ending ∧
    run ⟨R, V, [], .front⟩ (spell v).toList = some ⟨R, V, v.toList, p⟩ := by
  by_cases plain : IsPlain v
  · rw [spell_of_plain plain]
    cases shown : v.toList with
    | nil => exact ⟨.front, by decide, by decide, rfl⟩
    | cons c s =>
      rw [IsPlain, shown] at plain
      obtain ⟨first, others⟩ := List.forall_mem_cons.1 plain
      have other : c ≠ '"' := by rintro rfl; cases first
      exact ⟨.bare, by decide, by decide, by simp [run_cons, step, first, other, add, run_bare others]⟩
  · rw [spell, if_neg plain, String.toList_ofList, List.cons_append, run_cons]
    refine ⟨.closed, by decide, by decide, ?_⟩
    show run ⟨R, V, [], .quoted⟩ _ = _
    rw [run_append, run_quoted]
    rfl

/-- Behind a value, a comma and a line feed end it. -/
theorem step_of_place (inside : p ≠ .quoted) (between : p ≠ .ending) (stop : c = ',' ∨ c = '\n') :
    step ⟨R, V, cs, p⟩ c = leave ⟨R, V, cs, p⟩ c := by
  cases p with
  | quoted => exact absurd rfl inside
  | ending => exact absurd rfl between
  | front | bare | closed => rcases stop with rfl | rfl <;> rfl

theorem run_spell_comma (v : String) (rest : List Char) :
    run ⟨R, V, [], .front⟩ ((spell v).toList ++ ',' :: rest) = run ⟨R, V ++ [v], [], .front⟩ rest := by
  obtain ⟨p, inside, between, read⟩ := run_spell (R := R) (V := V) v
  rw [run_append, read, Option.bind_some, run_cons, step_of_place inside between (.inl rfl)]
  simp [leave, endValue]

theorem run_spell_lineFeed (v : String) :
    run ⟨R, V, [], .front⟩ ((spell v).toList ++ ['\n']) = some ⟨R ++ [V ++ [v]], [], [], .front⟩ := by
  obtain ⟨p, inside, between, read⟩ := run_spell (R := R) (V := V) v
  rw [run_append, read, Option.bind_some, run_cons, step_of_place inside between (.inr rfl)]
  simp [leave, endRecord, run]

end Reader

theorem toList_record : (record cells).toList = (",".intercalate cells).toList ++ ['\n'] := by
  simp [record, line]

theorem run_record (filled : cells ≠ []) :
    Reader.run ⟨R, V, [], .front⟩ (record (cells.map spell)).toList = some ⟨R ++ [V ++ cells], [], [], .front⟩ := by
  induction cells generalizing V with
  | nil => exact absurd rfl filled
  | cons v cells ih =>
    cases cells with
    | nil => simpa [toList_record] using Reader.run_spell_lineFeed v
    | cons w cells =>
      have later := ih (V := V ++ [v]) (by simp)
      have first := Reader.run_spell_comma (R := R) (V := V) v (record ((w :: cells).map spell)).toList
      rw [later] at first
      simpa [toList_record] using first

/-- What is written by the rules is read. -/
theorem read_spelled (filled : ∀ cells ∈ rows, cells ≠ []) :
    read (String.join (rows.map fun cells => record (cells.map spell))) = some rows := by
  have runs : ∀ R, Reader.run ⟨R, [], [], .front⟩
      (String.join (rows.map fun cells => record (cells.map spell))).toList = some ⟨R ++ rows, [], [], .front⟩ := by
    induction rows with
    | nil => simp [Reader.run]
    | cons cells rows ih =>
      obtain ⟨first, others⟩ := List.forall_mem_cons.1 filled
      intro R
      rw [List.map_cons, String.join_cons, String.toList_append, Reader.run_append, run_record first, Option.bind_some,
        ih others]
      simp
  rw [read, Reader.start, runs]
  rfl

/-! ## What can be read of a text -/

namespace Reader

/-- The characters that take what is read, without quotes: the values, one behind each, and the present value. -/
def size (r : Reader) : Nat := ((r.records.flatten ++ r.values).map fun v => v.length + 1).sum + r.letters.length

@[simp] theorem size_goTo (r : Reader) (p : Place) : (r.goTo p).size = r.size := rfl

@[simp] theorem size_add (r : Reader) (c : Char) (p : Place) : (r.add c p).size = r.size + 1 := by
  simp [size, add, Nat.add_assoc]

@[simp] theorem size_endValue (r : Reader) : r.endValue.size = r.size + 1 := by
  simp [size, endValue]
  omega

@[simp] theorem size_endRecord (r : Reader) : r.endRecord.size = r.size + 1 := by
  simp [size, endRecord]
  omega

theorem size_leave (left : r.leave c = some r') : r'.size ≤ r.size + 1 := by
  unfold leave at left
  split_ifs at left <;> cases left <;> simp

theorem size_step (took : r.step c = some r') : r'.size ≤ r.size + 1 := by
  unfold step at took
  split at took <;> split_ifs at took
  all_goals first
    | exact size_leave took
    | cases took
      simp

/-- No quotes and no carriage return were read. -/
structure IsBare (r : Reader) : Prop where
  values : ∀ v ∈ r.records.flatten ++ r.values, IsPlain v
  letters : ∀ c ∈ r.letters, isMark c = false
  place : r.place = .front ∨ r.place = .bare

/-- What was read fits in a number of characters, and fills them only if it stood there as it is. -/
structure Fits (r : Reader) (n : Nat) : Prop where
  size_le : r.size ≤ n
  bare : r.size = n → r.IsBare

theorem Fits.of_lt (less : r.size < n) : r.Fits n := ⟨less.le, fun full => absurd full less.ne⟩

theorem IsBare.plain (bare : r.IsBare) : ∀ v ∈ r.records.flatten ++ r.values ++ [String.ofList r.letters], IsPlain v :=
  List.forall_mem_append.2 ⟨bare.values, by simpa [IsPlain] using bare.letters⟩

theorem IsBare.endValue (bare : r.IsBare) : r.endValue.IsBare where
  values := by simpa [Reader.endValue] using bare.plain
  letters := by simp [Reader.endValue]
  place := .inl rfl

theorem IsBare.endRecord (bare : r.IsBare) : r.endRecord.IsBare where
  values := by simpa [Reader.endRecord] using bare.plain
  letters := by simp [Reader.endRecord]
  place := .inl rfl

theorem IsBare.add (bare : r.IsBare) (plain : isMark c = false) : (r.add c .bare).IsBare where
  values := bare.values
  letters := List.forall_mem_append.2 ⟨bare.letters, by simpa using plain⟩
  place := .inr rfl

theorem IsBare.leave (bare : r.IsBare) (left : r.leave c = some r') : r'.Fits (r.size + 1) := by
  unfold Reader.leave at left
  split_ifs at left <;> cases left
  · exact ⟨(size_endValue r).le, fun _ => bare.endValue⟩
  · exact ⟨(size_endRecord r).le, fun _ => bare.endRecord⟩
  · exact .of_lt (by simp)

theorem IsBare.step (bare : r.IsBare) (took : r.step c = some r') : r'.Fits (r.size + 1) := by
  unfold Reader.step at took
  rcases bare.place with place | place <;> rw [place] at took <;> dsimp only at took
  · split_ifs at took with quote mark
    · -- A quote in front of a value is a character of the text that no value has.
      cases took
      exact .of_lt (by simp)
    · exact bare.leave took
    · cases took
      exact ⟨(size_add r c _).le, fun _ => bare.add (by simpa using mark)⟩
  · split_ifs at took with mark
    · exact bare.leave took
    · cases took
      exact ⟨(size_add r c _).le, fun _ => bare.add (by simpa using mark)⟩

/-- A character that is read adds at most one to what is read. -/
theorem Fits.step (fits : r.Fits n) (took : r.step c = some r') : r'.Fits (n + 1) := by
  rcases fits.size_le.lt_or_eq with less | full
  · exact .of_lt ((size_step took).trans_lt (by omega))
  · exact full ▸ (fits.bare full).step took

theorem Fits.run (fits : r.Fits n) (ran : r.run s = some r') : r'.Fits (n + s.length) := by
  induction s generalizing r n with
  | nil =>
    cases ran
    exact fits
  | cons c s ih =>
    rw [run_cons, Option.bind_eq_some_iff] at ran
    obtain ⟨middle, took, ran⟩ := ran
    have later := ih (fits.step took) ran
    rwa [List.length_cons, Nat.add_comm s.length, ← Nat.add_assoc]

theorem fits_start : start.Fits 0 := ⟨Nat.le_refl 0, fun _ => ⟨by simp [start], by simp [start], .inl rfl⟩⟩

/-- A line feed ends a record, or stands between quotes. -/
theorem step_lineFeed (took : r.step '\n' = some r') : r'.place = .quoted ∨ r'.place = .front ∧ r'.values = [] := by
  obtain ⟨R, V, cs, p⟩ := r
  cases p with
  | quoted =>
    cases took
    exact .inl rfl
  | front | bare | closed | ending =>
    cases took
    exact .inr ⟨rfl, rfl⟩

end Reader

/-- The characters of a record without quotes. -/
theorem length_record (filled : cells ≠ []) : (record cells).length = (cells.map fun v => v.length + 1).sum := by
  have lineFeed : "\n".length = 1 := rfl
  induction cells with
  | nil => exact absurd rfl filled
  | cons v cells ih =>
    cases cells with
    | nil => simp [record, line, lineFeed]
    | cons w cells =>
      have later := ih (by simp)
      have comma : ",".length = 1 := rfl
      simp [record, line, lineFeed, comma] at later ⊢
      omega

theorem length_records (filled : ∀ cells ∈ rows, cells ≠ []) :
    (String.join (rows.map record)).length = (rows.flatten.map fun v => v.length + 1).sum := by
  induction rows with
  | nil => rfl
  | cons cells rows ih =>
    obtain ⟨first, others⟩ := List.forall_mem_cons.1 filled
    rw [List.map_cons, String.join_cons, String.length_append, length_record first, ih others, List.flatten_cons,
      List.map_append, List.sum_append]

theorem toList_records (more : rows ≠ []) : ∃ s, (String.join (rows.map record)).toList = s ++ ['\n'] := by
  obtain ⟨R, cells, rfl⟩ := (rows.eq_nil_or_concat).resolve_left more
  refine ⟨(String.join (R.map record) ++ ",".intercalate cells).toList, ?_⟩
  simp [toList_record]

/-- Nothing is left behind the records of a text that ends with a line feed. -/
theorem run_of_read {text : String} (ends : text.toList = s ++ ['\n']) (found : read text = some rows) :
    ∃ r, Reader.start.run text.toList = some r ∧ r.records = rows ∧ r.values = [] := by
  rw [read, Option.bind_eq_some_iff] at found
  obtain ⟨r, ran, found⟩ := found
  have last := ran
  rw [ends, Reader.run_append, Option.bind_eq_some_iff] at last
  obtain ⟨middle, -, took⟩ := last
  have took : middle.step '\n' = some r := by simpa [Reader.run] using took
  refine ⟨r, ran, ?_⟩
  rcases Reader.step_lineFeed took with inside | ⟨front, ended⟩
  · simp [Reader.finish, inside] at found
  · simpa [Reader.finish, front, ended] using found

/-! ## What is written as it is -/

/-- Records that are written without quotes are read back if no value needs quotes, and only then. -/
theorem read_records_iff (filled : ∀ cells ∈ rows, cells ≠ []) :
    read (String.join (rows.map record)) = some rows ↔ ∀ cells ∈ rows, ∀ v ∈ cells, IsPlain v := by
  constructor
  · intro found
    rcases eq_or_ne rows [] with rfl | more
    · simp
    · obtain ⟨s, ends⟩ := toList_records more
      obtain ⟨r, ran, records, ended⟩ := run_of_read ends found
      have fits := Reader.fits_start.run ran
      rw [Nat.zero_add, String.length_toList, length_records filled, ← records] at fits
      -- The text has no character more than the records that were read, so no quote was read.
      have full : r.size = (r.records.flatten.map fun v => v.length + 1).sum :=
        fits.size_le.antisymm (by simp [Reader.size, ended])
      have plain := (fits.bare full).values
      rw [ended, List.append_nil, records] at plain
      exact fun cells member v here => plain v (List.mem_flatten_of_mem member here)
  · intro plain
    have same : (rows.map fun cells => record (cells.map spell)) = rows.map record := by
      refine List.map_congr_left fun cells member => congrArg record ?_
      rw [List.map_congr_left fun v here => spell_of_plain (plain cells member v here), List.map_id']
    exact same ▸ read_spelled filled

end FlowArchive.Report.Csv
