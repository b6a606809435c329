import FlowArchive.Block.Index

/-!
# Entries of indexes

An entry that was written is read back from the front of whatever follows it, so an index lists what was appended
to it, in order. How an entry is read does not depend on what follows it, so nothing that is appended hides it, be it
an entry that was cut off or any other bytes.
-/

namespace FlowArchive.Index

variable {d : Descriptor} {ds : List Descriptor} {s rest : Bytes}

@[simp] theorem length_writeDescriptor (d : Descriptor) : (writeDescriptor d).length = 24 := by
  simp [writeDescriptor]

@[simp] theorem length_writeEntry (d : Descriptor) : (writeEntry d).length = 32 := by
  simp [writeEntry, frame]

theorem word_lt (n : UInt64) : n.toNat < Nat.pow 256 8 := n.toNat_lt

theorem readDescriptor?_writeDescriptor (d : Descriptor) (rest : Bytes) :
    readDescriptor? (writeDescriptor d ++ rest) = some (d, rest) := by
  obtain ⟨time, flows, traffic⟩ := d
  simp only [readDescriptor?, writeDescriptor, List.append_assoc, Option.bind_eq_bind]
  rw [Bytes.takeWord?_ofWord_append _ (word_lt _), Option.bind_some,
    Bytes.takeWord?_ofWord_append _ (word_lt _), Option.bind_some,
    Bytes.takeWord?_ofWord_append _ (word_lt _), Option.bind_some]
  simp

theorem readEntry_writeEntry (d : Descriptor) (rest : Bytes) :
    readEntry (writeEntry d ++ rest) = .ok (d, 32) := by
  have stored : (Checksum.ofBytes (writeDescriptor d)).toNat < Nat.pow 256 4 := UInt32.toNat_lt _
  have first : (writeEntry d ++ rest).take 4 = Bytes.ofWord 4 28 := by
    simp [writeEntry, frame]
  have length : Bytes.toWord (Bytes.ofWord 4 28) = 28 := Bytes.toWord_ofWord (by decide)
  have payload : ((writeEntry d ++ rest).drop 4).take 24 = writeDescriptor d := by
    simp [writeEntry, frame]
  have sum : ((writeEntry d ++ rest).drop 28).take 4 =
      Bytes.ofWord 4 (Checksum.ofBytes (writeDescriptor d)).toNat := by
    have front : (Bytes.ofWord 4 28 ++ writeDescriptor d).length = 28 := by simp
    have parts : writeEntry d ++ rest = (Bytes.ofWord 4 28 ++ writeDescriptor d) ++
        (Bytes.ofWord 4 (Checksum.ofBytes (writeDescriptor d)).toNat ++ rest) := by
      simp [writeEntry, frame]
    rw [parts, List.drop_left' front, List.take_left' (Bytes.length_ofWord _ _)]
  have whole : ((writeEntry d ++ rest).take (4 + 28)).length = 4 + 28 := by simp
  have read : readDescriptor? (writeDescriptor d) = some (d, []) := by
    simpa using readDescriptor?_writeDescriptor d []
  simp only [readEntry, first, length, payload, sum, whole, Bytes.toWord_ofWord stored, read]
  simp

/-! ## Reading step by step -/

theorem read_nil : read [] = .ok [] := by
  rw [read]
  rfl

theorem readPrefix_nil : readPrefix [] = ([], false) := by
  rw [readPrefix]
  rfl

/-- There is no entry in no bytes. -/
theorem filled_of_readEntry {n : Nat} (found : readEntry s = .ok (d, n)) : ¬ s.isEmpty = true := fun empty => by
  have bounds := readEntry_bounds found
  rw [List.isEmpty_iff.1 empty, List.length_nil] at bounds
  omega

theorem read_of_entry {n : Nat} (found : readEntry s = .ok (d, n)) : read s = (read (s.drop n)).map (d :: ·) := by
  rw [read, if_neg (filled_of_readEntry found)]
  split
  next refused => rw [found] at refused; cases refused
  next other => rw [found] at other; cases other; rfl

theorem readPrefix_of_entry {n : Nat} (found : readEntry s = .ok (d, n)) :
    readPrefix s = (d :: (readPrefix (s.drop n)).1, (readPrefix (s.drop n)).2) := by
  rw [readPrefix, if_neg (filled_of_readEntry found)]
  split
  next refused => rw [found] at refused; cases refused
  next other => rw [found] at other; cases other; rfl

theorem readPrefix_of_flaw {flaw : Flaw} (filled : s ≠ []) (refused : readEntry s = .error flaw) :
    readPrefix s = ([], true) := by
  rw [readPrefix, if_neg (by rwa [List.isEmpty_iff])]
  split
  · rfl
  next found => rw [refused] at found; cases found

/-! ## What was written is read -/

theorem drop_writeEntry (d : Descriptor) (rest : Bytes) : (writeEntry d ++ rest).drop 32 = rest :=
  List.drop_left' (length_writeEntry d)

theorem readPrefix_writeEntry (d : Descriptor) (rest : Bytes) :
    readPrefix (writeEntry d ++ rest) = (d :: (readPrefix rest).1, (readPrefix rest).2) := by
  rw [readPrefix_of_entry (readEntry_writeEntry d rest), drop_writeEntry]

theorem read_writeEntry (d : Descriptor) (rest : Bytes) :
    read (writeEntry d ++ rest) = (read rest).map (d :: ·) := by
  rw [read_of_entry (readEntry_writeEntry d rest), drop_writeEntry]

/-- The strict reader gives the blocks whose entries were written. -/
theorem read_write (ds : List Descriptor) : read (write ds) = .ok ds := by
  induction ds with
  | nil => exact read_nil
  | cons d others ih =>
    have front : write (d :: others) = writeEntry d ++ write others := rfl
    rw [front, read_writeEntry, ih]
    rfl

/-- What follows the entries of some blocks is read after them. -/
theorem readPrefix_write (ds : List Descriptor) (rest : Bytes) :
    readPrefix (write ds ++ rest) = (ds ++ (readPrefix rest).1, (readPrefix rest).2) := by
  induction ds with
  | nil => rfl
  | cons d others ih =>
    have front : write (d :: others) = writeEntry d ++ write others := rfl
    rw [front, List.append_assoc, readPrefix_writeEntry, ih]
    rfl

/-- What follows an entry does not change how the entry is read. -/
theorem readEntry_append {n : Nat} (read : readEntry s = .ok (d, n)) (rest : Bytes) :
    readEntry (s ++ rest) = .ok (d, n) := by
  have bounds := readEntry_bounds read
  have front : ∀ k, k ≤ s.length → (s ++ rest).take k = s.take k := fun k => List.take_append_of_le_length
  have long : ¬ (s.take 4).length < 4 := by simp; omega
  rw [readEntry, if_neg long] at read
  rw [readEntry, front 4 (by omega), if_neg long]
  dsimp only at read ⊢
  generalize Bytes.toWord (s.take 4) = length at read ⊢
  split at read
  · cases read
  next enough =>
    split at read
    · cases read
    next whole =>
      have inside : 4 + length ≤ s.length := by simp at whole; omega
      have payload : ((s ++ rest).drop 4).take (length - 4) = (s.drop 4).take (length - 4) := by
        rw [List.drop_append_of_le_length (by omega), List.take_append_of_le_length (by simp; omega)]
      have sum : ((s ++ rest).drop length).take 4 = (s.drop length).take 4 := by
        rw [List.drop_append_of_le_length (by omega), List.take_append_of_le_length (by simp; omega)]
      rw [if_neg enough, front _ inside, if_neg whole, payload, sum]
      exact read

/-- What follows bytes that are read to their end is read after them. -/
theorem readPrefix_append (flawless : (readPrefix s).2 = false) (rest : Bytes) :
    readPrefix (s ++ rest) = ((readPrefix s).1 ++ (readPrefix rest).1, (readPrefix rest).2) := by
  induction s using readPrefix.induct with
  | case1 s empty =>
    obtain rfl := List.isEmpty_iff.1 empty
    rw [readPrefix_nil]
    rfl
  | case2 s filled flaw refused =>
    rw [readPrefix_of_flaw (by rwa [List.isEmpty_iff] at filled) refused] at flawless
    cases flawless
  | case3 s filled d n found ih =>
    rw [readPrefix_of_entry found] at flawless ⊢
    rw [readPrefix_of_entry (readEntry_append found rest),
      List.drop_append_of_le_length (readEntry_bounds found).2, ih flawless]
    rfl

/-- What follows bytes takes no entry away that is read from them. -/
theorem readPrefix_isPrefix (s rest : Bytes) : (readPrefix s).1 <+: (readPrefix (s ++ rest)).1 := by
  induction s using readPrefix.induct with
  | case1 s empty =>
    obtain rfl := List.isEmpty_iff.1 empty
    rw [readPrefix_nil]
    exact List.nil_prefix
  | case2 s filled flaw refused =>
    rw [readPrefix_of_flaw (by rwa [List.isEmpty_iff] at filled) refused]
    exact List.nil_prefix
  | case3 s filled d n found ih =>
    rw [readPrefix_of_entry found, readPrefix_of_entry (readEntry_append found rest),
      List.drop_append_of_le_length (readEntry_bounds found).2]
    exact List.cons_prefix_cons.2 ⟨rfl, ih⟩

/-! ## Entries that were cut off -/

/-- An entry that was cut off is no entry. -/
theorem readEntry_take_writeEntry (d : Descriptor) {n : Nat} (short : n < 32) :
    ∃ flaw, readEntry ((writeEntry d).take n) = .error flaw := by
  have size : ((writeEntry d).take n).length = n := by simp; omega
  cases found : readEntry ((writeEntry d).take n) with
  | error flaw => exact ⟨flaw, rfl⟩
  | ok entry =>
    -- The length of the entry comes first, so whatever is read would end where the entry does.
    have bounds := readEntry_bounds found
    have first : ((writeEntry d).take n).take 4 = Bytes.ofWord 4 28 := by
      rw [List.take_take, Nat.min_eq_left (by omega)]
      simp [writeEntry, frame]
    have length : Bytes.toWord (Bytes.ofWord 4 28) = 28 := Bytes.toWord_ofWord (by decide)
    have cut : (((writeEntry d).take n).take (4 + 28)).length < 4 + 28 := by
      simp
      omega
    rw [readEntry, first, length, if_neg (by simp), if_neg (by omega), if_pos cut] at found
    cases found

/-- From an entry that was cut off nothing is read, and it is damage unless it is empty. -/
theorem readPrefix_of_torn {p : Bytes} (front : p <+: writeEntry d) (proper : p ≠ writeEntry d) :
    readPrefix p = ([], decide (p ≠ [])) := by
  have short : p.length < 32 := by
    have shorter : p.length ≠ (writeEntry d).length := fun same => proper (front.eq_of_length same)
    have most := front.length_le
    rw [length_writeEntry] at shorter most
    omega
  by_cases empty : p = []
  · rw [empty, readPrefix_nil]
    rfl
  · obtain ⟨flaw, refused⟩ := readEntry_take_writeEntry d short
    rw [← List.prefix_iff_eq_take.1 front] at refused
    simp [readPrefix_of_flaw empty refused, empty]

theorem readPrefix_take_writeEntry (d : Descriptor) {n : Nat} (short : n < 32) :
    (readPrefix ((writeEntry d).take n)).1 = [] := by
  have proper : (writeEntry d).take n ≠ writeEntry d := fun same => by
    have length := congrArg List.length same
    simp at length
    omega
  rw [readPrefix_of_torn (List.take_prefix _ _) proper]

theorem write_append (ds : List Descriptor) (d : Descriptor) : write (ds ++ [d]) = write ds ++ writeEntry d := by
  simp [write]

@[simp] theorem readPrefix_write_nil (ds : List Descriptor) : (readPrefix (write ds)).1 = ds := by
  have all := readPrefix_write ds []
  rw [List.append_nil, readPrefix_nil, List.append_nil] at all
  rw [all]

/-- The index of some blocks lists just these blocks. If the append of a further entry was cut off behind it, they are
listed in order all the same, and the damage is told unless nothing of the entry was written. Whatever bytes an index
consists of and whatever is appended to it, what was listed before is listed first. -/
theorem torn_append_hides_nothing (ds : List Descriptor) :
    read (write ds) = .ok ds ∧
    (∀ d p, p <+: writeEntry d → p ≠ writeEntry d → readPrefix (write ds ++ p) = (ds, decide (p ≠ []))) ∧
    ∀ s rest, (readPrefix s).1 <+: (readPrefix (s ++ rest)).1 := by
  refine ⟨read_write ds, fun d p front proper => ?_, readPrefix_isPrefix⟩
  rw [readPrefix_write, readPrefix_of_torn front proper, List.append_nil]

/-- Two entries stay readable behind which half of a third one was written. -/
theorem torn_append_hides_nothing_half :
    read (write [⟨300, 10, 1000⟩, ⟨600, 10, 1000⟩]) = .ok [⟨300, 10, 1000⟩, ⟨600, 10, 1000⟩] ∧
    readPrefix (write [⟨300, 10, 1000⟩, ⟨600, 10, 1000⟩] ++ (writeEntry ⟨900, 10, 1000⟩).take 16) =
      ([⟨300, 10, 1000⟩, ⟨600, 10, 1000⟩], true) ∧
    (readPrefix (write [⟨300, 10, 1000⟩])).1 <+: (readPrefix (write [⟨300, 10, 1000⟩] ++ [28, 0, 0])).1 := by
  obtain ⟨whole, torn, kept⟩ := torn_append_hides_nothing [⟨300, 10, 1000⟩, ⟨600, 10, 1000⟩]
  have half : readPrefix (write [⟨300, 10, 1000⟩, ⟨600, 10, 1000⟩] ++ (writeEntry ⟨900, 10, 1000⟩).take 16) =
      ([⟨300, 10, 1000⟩, ⟨600, 10, 1000⟩], decide ((writeEntry ⟨900, 10, 1000⟩).take 16 ≠ [])) :=
    torn _ _ (List.take_prefix _ _) (by decide +kernel)
  exact ⟨whole, half, kept _ _⟩

end FlowArchive.Index
