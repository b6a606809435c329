import FlowArchive.Proofs.IndexEntries

/-!
# Two readers of one index

The strict reader and the one that makes the best of a damaged index take the same entries: either both come to the
end, or both stop at the same flaw, which the first one reports and behind which the second one gives up. What the
second one keeps is all that a strict reader could be given of the index from its front on.
-/

namespace FlowArchive.Index

variable {d : Descriptor} {ds es : List Descriptor} {s p q rest : Bytes} {n : Nat} {flaw : Flaw}

/-! ## Entries -/

/-- An entry ends where its length says. -/
theorem length_of_readEntry (found : readEntry s = .ok (d, n)) : n = 4 + Bytes.toWord (s.take 4) := by
  simp only [readEntry] at found
  repeat' split at found
  all_goals cases found
  rfl

/-- An entry is read from its own bytes alone. -/
theorem readEntry_take (found : readEntry s = .ok (d, n)) : readEntry (s.take n) = .ok (d, n) := by
  have bounds := readEntry_bounds found
  have ends := length_of_readEntry found
  have front : ∀ {k}, k ≤ n → (s.take n).take k = s.take k := fun {k} within => by
    rw [List.take_take, Nat.min_eq_left within]
  have inside : ∀ {j k}, j + k ≤ n → ((s.take n).drop j).take k = (s.drop j).take k := fun {j k} within => by
    rw [List.drop_take, List.take_take, Nat.min_eq_left (by omega)]
  rw [← found, readEntry, readEntry, front (by omega)]
  dsimp only
  rw [front (by omega), inside (by omega), inside (by omega)]

/-! ## Strict reading -/

theorem read_of_flaw (filled : s ≠ []) (refused : readEntry s = .error flaw) : read s = .error flaw := by
  rw [read, if_neg (by rwa [List.isEmpty_iff])]
  split
  next other => rw [refused] at other; cases other; rfl
  next found => rw [refused] at found; cases found

theorem exists_of_read (found : readEntry s = .ok (d, n)) (whole : read s = .ok ds) :
    ∃ others, read (s.drop n) = .ok others ∧ ds = d :: others := by
  rw [read_of_entry found] at whole
  cases behind : read (s.drop n) with
  | error flaw => rw [behind] at whole; cases whole
  | ok others => rw [behind] at whole; cases whole; exact ⟨others, rfl, rfl⟩

theorem exists_entry_of_read (filled : s ≠ []) (whole : read s = .ok ds) : ∃ d n, readEntry s = .ok (d, n) := by
  cases first : readEntry s with
  | ok entry => exact ⟨entry.1, entry.2, rfl⟩
  | error flaw =>
    rw [read_of_flaw filled first] at whole
    cases whole

/-- What follows bytes that are read to their end is read after them. -/
theorem read_append (whole : read p = .ok ds) (rest : Bytes) : read (p ++ rest) = (read rest).map (ds ++ ·) := by
  induction p using read.induct generalizing ds with
  | case1 p empty =>
    obtain rfl := List.isEmpty_iff.1 empty
    rw [read_nil] at whole
    cases whole
    rw [List.nil_append]
    cases read rest <;> rfl
  | case2 p filled flaw refused =>
    rw [read_of_flaw (by rwa [List.isEmpty_iff] at filled) refused] at whole
    cases whole
  | case3 p filled d n found ih =>
    obtain ⟨others, behind, rfl⟩ := exists_of_read found whole
    rw [read_of_entry (readEntry_append found rest), List.drop_append_of_le_length (readEntry_bounds found).2,
      ih behind]
    cases read rest <;> rfl

theorem readPrefix_of_read (whole : read s = .ok ds) : readPrefix s = (ds, false) := by
  induction s using read.induct generalizing ds with
  | case1 s empty =>
    obtain rfl := List.isEmpty_iff.1 empty
    rw [read_nil] at whole
    cases whole
    exact readPrefix_nil
  | case2 s filled flaw refused =>
    rw [read_of_flaw (by rwa [List.isEmpty_iff] at filled) refused] at whole
    cases whole
  | case3 s filled d n found ih =>
    obtain ⟨others, behind, rfl⟩ := exists_of_read found whole
    rw [readPrefix_of_entry found, ih behind]

/-- Where strict reading fails, the bytes have a front that is read to its end, and there is no entry behind it. -/
theorem exists_front (failed : read s = .error flaw) :
    ∃ p rest ds, s = p ++ rest ∧ read p = .ok ds ∧ rest ≠ [] ∧ readEntry rest = .error flaw := by
  induction s using read.induct with
  | case1 s empty =>
    obtain rfl := List.isEmpty_iff.1 empty
    rw [read_nil] at failed
    cases failed
  | case2 s filled other refused =>
    rw [List.isEmpty_iff] at filled
    rw [read_of_flaw filled refused] at failed
    cases failed
    exact ⟨[], s, [], rfl, read_nil, filled, refused⟩
  | case3 s filled d n found ih =>
    have later : read (s.drop n) = .error flaw := by
      rw [read_of_entry found] at failed
      cases behind : read (s.drop n) with
      | error other => rw [behind] at failed; cases failed; rfl
      | ok others => rw [behind] at failed; cases failed
    obtain ⟨p, rest, ds, parts, whole, filled, refused⟩ := ih later
    refine ⟨s.take n ++ p, rest, d :: ds, ?_, ?_, filled, refused⟩
    · rw [List.append_assoc, ← parts, List.take_append_drop]
    · have first := readEntry_append (readEntry_take found) p
      rw [read_of_entry first, List.drop_left' (List.length_take_of_le (readEntry_bounds found).2), whole]
      rfl

/-! ## Both readers -/

/-- Both readers read the same bytes to their end, with the same result. -/
theorem read_eq_ok_iff : read s = .ok ds ↔ readPrefix s = (ds, false) := by
  refine ⟨readPrefix_of_read, fun flawless => ?_⟩
  cases outcome : read s with
  | ok es =>
    rw [readPrefix_of_read outcome] at flawless
    cases flawless
    rfl
  | error flaw =>
    obtain ⟨p, rest, es, rfl, whole, filled, refused⟩ := exists_front outcome
    have front := readPrefix_of_read whole
    rw [readPrefix_append (by rw [front]) rest, readPrefix_of_flaw filled refused] at flawless
    cases flawless

/-- The longest front of bytes that is read strictly, and what it is read as. -/
structure IsLongestRead (s p : Bytes) (ds : List Descriptor) : Prop where
  front : p <+: s
  whole : read p = .ok ds
  longest : ∀ q es, q <+: s → read q = .ok es → q <+: p

/-- Where no entry follows bytes that are read strictly, no longer front is read strictly. -/
theorem isLongestRead_of_flaw (whole : read p = .ok ds) (refused : readEntry rest = .error flaw) :
    IsLongestRead (p ++ rest) p ds := by
  refine ⟨List.prefix_append p rest, whole, fun q es front read' => ?_⟩
  rcases List.prefix_or_prefix_of_prefix front (List.prefix_append p rest) with shorter | longer
  · exact shorter
  obtain ⟨more, rfl⟩ := longer
  obtain ⟨others, behind⟩ : ∃ others, read more = .ok others := by
    rw [read_append whole] at read'
    cases outcome : read more with
    | ok others => exact ⟨others, rfl⟩
    | error flaw => rw [outcome] at read'; cases read'
  by_cases empty : more = []
  · subst empty
    exact ⟨[], by simp⟩
  · -- The first entry of what there is more would be one of the rest.
    obtain ⟨left, rfl⟩ := (List.prefix_append_right_inj p).1 front
    obtain ⟨d, n, found⟩ := exists_entry_of_read empty behind
    rw [readEntry_append found left] at refused
    cases refused

theorem eight_mul_length_le (s : Bytes) : 8 * (readPrefix s).1.length ≤ s.length := by
  induction s using readPrefix.induct with
  | case1 s empty =>
    obtain rfl := List.isEmpty_iff.1 empty
    rw [readPrefix_nil]
    exact Nat.le_refl 0
  | case2 s filled flaw refused =>
    rw [readPrefix_of_flaw (by rwa [List.isEmpty_iff] at filled) refused]
    exact Nat.zero_le _
  | case3 s filled d n found ih =>
    have bounds := readEntry_bounds found
    rw [readPrefix_of_entry found, List.length_cons]
    rw [List.length_drop] at ih
    omega

/-- Strict reading succeeds if and only if the other reader finds no flaw, and with the same blocks. If it fails, the
other one gives the blocks of the longest front that is read strictly and tells of the flaw, and the strict reader
fails for the flaw of the entry behind this front. Every entry that is taken has eight bytes at least and ends
within what is left, so both readers take at most an eighth as many entries as there are bytes. -/
theorem readers_agree (s : Bytes) :
    (∀ ds, read s = .ok ds ↔ readPrefix s = (ds, false)) ∧
    (∀ flaw, read s = .error flaw → ∃ p ds, IsLongestRead s p ds ∧ readPrefix s = (ds, true) ∧
      readEntry (s.drop p.length) = .error flaw) ∧
    (∀ d n, readEntry s = .ok (d, n) → 8 ≤ n ∧ n ≤ s.length) ∧
    8 * (readPrefix s).1.length ≤ s.length := by
  refine ⟨fun ds => read_eq_ok_iff, fun flaw failed => ?_, fun d n => readEntry_bounds, eight_mul_length_le s⟩
  obtain ⟨p, rest, ds, rfl, whole, filled, refused⟩ := exists_front failed
  have front := readPrefix_of_read whole
  refine ⟨p, ds, isLongestRead_of_flaw whole refused, ?_, by rwa [List.drop_left]⟩
  rw [readPrefix_append (by rw [front]) rest, readPrefix_of_flaw filled refused, front, List.append_nil]

/-- Behind two entries, a third one whose length is too small. -/
theorem readers_agree_damaged :
    let s := write [⟨300, 10, 1000⟩, ⟨600, 10, 1000⟩] ++ [3, 0, 0, 0, 0]
    read s = .error (.shortLength 3) ∧ readEntry (writeEntry ⟨300, 10, 1000⟩) = .ok (⟨300, 10, 1000⟩, 32) ∧
    (∃ p ds, IsLongestRead s p ds ∧ readPrefix s = (ds, true) ∧
      readEntry (s.drop p.length) = .error (.shortLength 3)) ∧
    8 ≤ 32 ∧ 32 ≤ (writeEntry ⟨300, 10, 1000⟩).length := by
  intro s
  have failed : read s = .error (.shortLength 3) := by
    have refused : readEntry [3, 0, 0, 0, 0] = .error (.shortLength 3) := rfl
    rw [read_append (read_write _), read_of_flaw (by decide) refused]
    rfl
  have found : readEntry (writeEntry ⟨300, 10, 1000⟩) = .ok (⟨300, 10, 1000⟩, 32) := by
    simpa using readEntry_writeEntry ⟨300, 10, 1000⟩ []
  obtain ⟨-, damaged, -, -⟩ := readers_agree s
  obtain ⟨-, -, bounds, -⟩ := readers_agree (writeEntry ⟨300, 10, 1000⟩)
  exact ⟨failed, found, damaged _ failed, bounds _ _ found⟩

end FlowArchive.Index
