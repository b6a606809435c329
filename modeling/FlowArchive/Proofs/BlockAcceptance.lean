import FlowArchive.Failure
import FlowArchive.Proofs.BlockRoundTrip

/-!
# What is accepted as a block

What a reader of flows takes from the front of a string is what writing the flows gives. So a string is a block of some
flows if and only if its header tells the truth about the bytes behind it and these expand to the written flows, with
anything behind them. Every other string is refused for the first of the checks that it fails.
-/

namespace FlowArchive

/-! ## What was taken was written -/

namespace Bytes

variable {s front rest : Bytes} {n width : Nat}

theorem eq_append_of_takeBytes? (taken : takeBytes? n s = some (front, rest)) : front.length = n ∧ s = front ++ rest := by
  simp only [takeBytes?] at taken
  split at taken
  · cases taken
  next enough =>
    cases taken
    have most := List.length_take_le n s
    exact ⟨by omega, (List.take_append_drop n s).symm⟩

theorem eq_ofWord_append_of_takeWord? (taken : takeWord? width s = some (n, rest)) :
    n < Nat.pow 256 width ∧ s = ofWord width n ++ rest := by
  obtain ⟨⟨front, behind⟩, found, same⟩ := Option.map_eq_some_iff.1 taken
  cases same
  obtain ⟨rfl, rfl⟩ := eq_append_of_takeBytes? found
  exact ⟨toWord_lt front, by rw [ofWord_toWord]⟩

theorem toWord_eq_foldr (s : Bytes) : toWord s = s.foldr (fun b n => b.toNat + 256 * n) 0 := by
  induction s with
  | nil => rfl
  | cons b rest ih => rw [toWord, ih, List.foldr_cons]

end Bytes

namespace Address

variable {s rest : Bytes} {x : Address}

/-- Octets spell what the word of the same bytes in the other order does. -/
theorem numberOfOctets_eq (s : Bytes) : numberOfOctets s = Bytes.toWord s.reverse := by
  rw [Bytes.toWord_eq_foldr, List.foldr_reverse, numberOfOctets]
  simp only [Nat.add_comm]

/-- Octets of one number are the same if there are as many of them. -/
theorem eq_of_numberOfOctets {s t : Bytes} (length : s.length = t.length) (same : numberOfOctets s = numberOfOctets t) :
    s = t := by
  rw [numberOfOctets_eq, numberOfOctets_eq] at same
  have first := Bytes.ofWord_toWord s.reverse
  have second := Bytes.ofWord_toWord t.reverse
  rw [List.length_reverse] at first second
  rw [same, length, second] at first
  exact (List.reverse_inj.1 first).symm

theorem octets_ofNat_v4 {s : Bytes} (length : s.length = 4) : (v4 (BitVec.ofNat 32 (numberOfOctets s))).octets = s := by
  have small := Bytes.toWord_lt s.reverse
  rw [← numberOfOctets_eq, List.length_reverse, length] at small
  have whole : numberOfOctets s % 2 ^ 32 = numberOfOctets s := Nat.mod_eq_of_lt small
  refine eq_of_numberOfOctets (by simp [octets, length]) ?_
  rw [numberOfOctets_v4, BitVec.toNat_ofNat, whole]

theorem octets_ofNat_v6 {s : Bytes} (length : s.length = 16) :
    (v6 (BitVec.ofNat 128 (numberOfOctets s))).octets = s := by
  have small := Bytes.toWord_lt s.reverse
  rw [← numberOfOctets_eq, List.length_reverse, length] at small
  have whole : numberOfOctets s % 2 ^ 128 = numberOfOctets s := Nat.mod_eq_of_lt small
  refine eq_of_numberOfOctets (by simp [octets, length]) ?_
  rw [numberOfOctets_v6, BitVec.toNat_ofNat, whole]

theorem eq_write_of_read? (read : read? s = some (x, rest)) : s = x.write ++ rest := by
  obtain ⟨⟨family, behind⟩, word, chosen⟩ := Option.bind_eq_some_iff.1 read
  obtain ⟨-, split⟩ := Bytes.eq_ofWord_append_of_takeWord? word
  dsimp only at chosen
  split at chosen
  · obtain ⟨⟨octets, after⟩, taken, same⟩ := Option.bind_eq_some_iff.1 chosen
    cases same
    obtain ⟨length, rfl⟩ := Bytes.eq_append_of_takeBytes? taken
    rw [split, write, octets_ofNat_v4 length, List.append_assoc]
  · obtain ⟨⟨octets, after⟩, taken, same⟩ := Option.bind_eq_some_iff.1 chosen
    cases same
    obtain ⟨length, rfl⟩ := Bytes.eq_append_of_takeBytes? taken
    rw [split, write, octets_ofNat_v6 length, List.append_assoc]
  · cases chosen

end Address

theorem Counters.eq_write_of_read? {s rest : Bytes} {c : Counters} (read : read? s = some (c, rest)) :
    s = c.write ++ rest := by
  obtain ⟨⟨packetsReceived, behind⟩, first, read⟩ := Option.bind_eq_some_iff.1 read
  obtain ⟨⟨packetsSent, behind⟩, second, read⟩ := Option.bind_eq_some_iff.1 read
  obtain ⟨⟨bytesReceived, behind⟩, third, read⟩ := Option.bind_eq_some_iff.1 read
  obtain ⟨⟨bytesSent, behind⟩, fourth, same⟩ := Option.bind_eq_some_iff.1 read
  obtain ⟨fits₁, rfl⟩ := Bytes.eq_ofWord_append_of_takeWord? first
  obtain ⟨fits₂, rfl⟩ := Bytes.eq_ofWord_append_of_takeWord? second
  obtain ⟨fits₃, rfl⟩ := Bytes.eq_ofWord_append_of_takeWord? third
  obtain ⟨fits₄, rfl⟩ := Bytes.eq_ofWord_append_of_takeWord? fourth
  cases same
  have whole : ∀ n, n < Nat.pow 256 8 → (UInt64.ofNat n).toNat = n := fun n fits => UInt64.toNat_ofNat_of_lt' fits
  simp only [write, whole _ fits₁, whole _ fits₂, whole _ fits₃, whole _ fits₄, List.append_assoc]

namespace Flow

variable {s rest : Bytes} {f : Flow} {fs : List Flow} {count : Nat}

theorem eq_write_of_read? (read : read? s = some (f, rest)) : s = f.write ++ rest := by
  obtain ⟨⟨source, behind⟩, first, read⟩ := Option.bind_eq_some_iff.1 read
  obtain ⟨⟨destination, behind⟩, second, read⟩ := Option.bind_eq_some_iff.1 read
  obtain ⟨⟨port, behind⟩, third, read⟩ := Option.bind_eq_some_iff.1 read
  obtain ⟨⟨protocol, behind⟩, fourth, read⟩ := Option.bind_eq_some_iff.1 read
  obtain ⟨⟨counters, behind⟩, fifth, same⟩ := Option.bind_eq_some_iff.1 read
  obtain ⟨portFits, rest₃⟩ := Bytes.eq_ofWord_append_of_takeWord? third
  obtain ⟨protocolFits, rest₄⟩ := Bytes.eq_ofWord_append_of_takeWord? fourth
  have wholePort : (UInt16.ofNat port).toNat = port := UInt16.toNat_ofNat_of_lt' portFits
  have single : Bytes.ofWord 1 protocol = [UInt8.ofNat protocol] := rfl
  cases same
  rw [Address.eq_write_of_read? first, Address.eq_write_of_read? second, rest₃, rest₄,
    Counters.eq_write_of_read? fifth, single]
  simp only [write, wholePort, List.append_assoc]

theorem eq_write_of_readMany? (read : readMany? count s = some (fs, rest)) :
    fs.length = count ∧ s = fs.flatMap write ++ rest := by
  induction count generalizing s fs with
  | zero =>
    cases read
    exact ⟨rfl, rfl⟩
  | succ count ih =>
    rw [readMany?] at read
    split at read
    · cases read
    next f behind first =>
      obtain ⟨⟨others, after⟩, found, same⟩ := Option.map_eq_some_iff.1 read
      cases same
      obtain ⟨rfl, rfl⟩ := ih found
      rw [eq_write_of_read? first]
      exact ⟨rfl, by rw [List.flatMap_cons, List.append_assoc]⟩

/-- Flows are read from a string if and only if it begins with what writing them gives. -/
theorem readAll?_eq_some_iff : readAll? s = some (fs, rest) ↔ fs.length < Nat.pow 256 8 ∧ s = writeAll fs ++ rest := by
  constructor
  · intro read
    obtain ⟨⟨count, behind⟩, word, many⟩ := Option.bind_eq_some_iff.1 read
    obtain ⟨fits, rfl⟩ := Bytes.eq_ofWord_append_of_takeWord? word
    obtain ⟨rfl, same⟩ := eq_write_of_readMany? many
    dsimp only at same
    exact ⟨fits, by rw [writeAll, List.append_assoc, ← same]⟩
  · rintro ⟨fits, rfl⟩
    exact readAll?_append fits rest

end Flow

/-! ## Checks -/

namespace Block

variable {s stored plain : Bytes} {fs : List Flow}

/-- The number that four bytes of the header state, from a position on. -/
def stated (s : Bytes) (place : Nat) : Nat := Bytes.toWord ((s.drop place).take 4)

/-- The payload of a string expands to what writing some flows gives, with anything behind it. -/
def Holds (s : Bytes) (fs : List Flow) : Prop :=
  ∃ plain, plain? (s.drop 17) = some plain ∧ Flow.writeAll fs <+: plain

/-- A string is a block of some flows: a header of 17 bytes that tells the truth about the bytes behind it, which
expand to the flows. -/
structure IsBlockOf (s : Bytes) (fs : List Flow) : Prop where
  long : 17 ≤ s.length
  version : s.head? = some 1
  size : stated s 5 = s.length - 17
  checksum : stated s 13 = (Checksum.ofBytes (s.drop 17)).toNat
  holds : Holds s fs
  count : stated s 1 = fs.length

/-- What is checked of a block. -/
inductive Check where
  | header
  | version
  | size
  | checksum
  | compression
  | flows
  | count
deriving DecidableEq, Repr

namespace Check

/-- The checks in their order. -/
def all : List Check := [header, version, size, checksum, compression, flows, count]

/-- What a check asks of a string. -/
def Passes (s : Bytes) : Check → Prop
  | header => 17 ≤ s.length
  | version => s.head? = some 1
  | size => stated s 5 = s.length - 17
  | checksum => stated s 13 = (Checksum.ofBytes (s.drop 17)).toNat
  | compression => ∃ plain, plain? (s.drop 17) = some plain
  | flows => ∃ fs, fs.length < Nat.pow 256 8 ∧ Holds s fs
  | count => ∃ fs, stated s 1 = fs.length ∧ Holds s fs

/-- A check is the first one that a string fails. -/
def FailsFirst (s : Bytes) (check : Check) : Prop :=
  ¬ check.Passes s ∧ ∀ earlier ∈ all.takeWhile (· ≠ check), earlier.Passes s

/-- The kind of failure that belongs to a check. -/
def kind : Check → Failure.Kind
  | header | version => .format
  | size | count => .corruption
  | checksum => .checksum
  | compression => .compression
  | flows => .serialization

end Check

/-- The check that a flaw is found by. -/
def Flaw.check : Flaw → Check
  | shortHeader => .header
  | unknownVersion _ => .version
  | wrongSize _ _ => .size
  | wrongChecksum _ _ => .checksum
  | notCompressed => .compression
  | notFlows => .flows
  | wrongCount _ _ => .count

/-- What a flaw tells of a string is true. -/
def Flaw.IsTrue (s : Bytes) : Flaw → Prop
  | unknownVersion v => s.head? = some v
  | wrongSize found size => found = s.length - 17 ∧ size.toNat = stated s 5
  | wrongChecksum sum found => sum.toNat = stated s 13 ∧ found = Checksum.ofBytes (s.drop 17)
  | wrongCount found count => (∃ fs, fs.length < Nat.pow 256 8 ∧ Holds s fs ∧ found = fs.length) ∧ count.toNat = stated s 1
  | shortHeader | notCompressed | notFlows => True

theorem Flaw.kind_eq (flaw : Flaw) : (Failure.block flaw).kind = flaw.check.kind := by
  cases flaw <;> rfl

/-! ## Blocks and refused strings -/

theorem stated_lt (s : Bytes) (place : Nat) : stated s place < 4294967296 := by
  have small := Bytes.toWord_lt ((s.drop place).take 4)
  have short : ((s.drop place).take 4).length ≤ 4 := List.length_take_le _ _
  exact Nat.lt_of_lt_of_le small (Nat.pow_le_pow_right (by decide) short)

@[simp] theorem Header.toNat_wordAt (s : Bytes) (place : Nat) : (wordAt s place).toNat = stated s place :=
  UInt32.toNat_ofNat_of_lt' (stated_lt s place)

theorem readAll?_of_holds (expanded : plain? (s.drop 17) = some plain) (holds : Holds s fs)
    (fits : fs.length < Nat.pow 256 8) : ∃ rest, Flow.readAll? plain = some (fs, rest) := by
  obtain ⟨plain', expanded', rest, rfl⟩ := holds
  rw [expanded] at expanded'
  cases expanded'
  exact ⟨rest, Flow.readAll?_append fits rest⟩

theorem holds_of_readAll? {rest : Bytes} (expanded : plain? (s.drop 17) = some plain)
    (read : Flow.readAll? plain = some (fs, rest)) : Holds s fs :=
  ⟨plain, expanded, rest, (Flow.readAll?_eq_some_iff.1 read).2.symm⟩

/-- The header cannot state more flows than a list of flows may have. -/
theorem fits_of_stated (count : stated s 1 = fs.length) : fs.length < Nat.pow 256 8 := by
  rw [← count]
  exact Nat.lt_trans (stated_lt s 1) (by decide)

theorem IsBlockOf.passes (block : IsBlockOf s fs) (check : Check) : check.Passes s := by
  obtain ⟨plain, expanded, -⟩ := block.holds
  cases check with
  | header => exact block.long
  | version => exact block.version
  | size => exact block.size
  | checksum => exact block.checksum
  | compression => exact ⟨plain, expanded⟩
  | flows => exact ⟨fs, fits_of_stated block.count, block.holds⟩
  | count => exact ⟨fs, block.count, block.holds⟩

theorem exists_isBlockOf (passes : ∀ check : Check, check.Passes s) : ∃ fs, IsBlockOf s fs := by
  obtain ⟨fs, count, holds⟩ := passes .count
  exact ⟨fs, passes .header, passes .version, passes .size, passes .checksum, holds, count⟩

theorem Check.exists_first {cs : List Check} (fails : ∃ c ∈ cs, ¬ c.Passes s) :
    ∃ c, ¬ c.Passes s ∧ ∀ earlier ∈ cs.takeWhile (· ≠ c), earlier.Passes s := by
  induction cs with
  | nil => simp at fails
  | cons c cs ih =>
    by_cases passes : c.Passes s
    · have later : ∃ c ∈ cs, ¬ c.Passes s := by simpa [passes] using fails
      obtain ⟨first, failed, before⟩ := ih later
      refine ⟨first, failed, fun earlier member => ?_⟩
      have other : c ≠ first := fun same => failed (same ▸ passes)
      rw [List.takeWhile_cons_of_pos (by simpa using other)] at member
      rcases List.mem_cons.1 member with rfl | member
      · exact passes
      · exact before earlier member
    · refine ⟨c, passes, fun earlier member => ?_⟩
      rw [List.takeWhile_cons_of_neg (by simp)] at member
      cases member

/-- A string is a block or there is a first check that it fails. -/
theorem exists_isBlockOf_or_failsFirst (s : Bytes) : (∃ fs, IsBlockOf s fs) ∨ ∃ check : Check, check.FailsFirst s := by
  by_cases fails : ∃ check ∈ Check.all, ¬ check.Passes s
  · exact .inr (Check.exists_first fails)
  · refine .inl (exists_isBlockOf fun check => ?_)
    refine Classical.byContradiction fun failed => fails ⟨check, ?_, failed⟩
    cases check <;> decide

/-! ## The verdict -/

/-- The verdict on a payload whose header states a number of flows. -/
def contents (count : UInt32) (stored : Bytes) : Except Flaw (List Flow) :=
  match plain? stored with
  | none => .error .notCompressed
  | some plain =>
    match Flow.readAll? plain with
    | none => .error .notFlows
    | some (fs, _) => if fs.length ≠ count.toNat then .error (.wrongCount fs.length count) else .ok fs

/-- The verdict on a header and the bytes behind it. -/
def verdict (h : Header) (stored : Bytes) : Except Flaw (List Flow) :=
  if h.version ≠ version then .error (.unknownVersion h.version)
  else if stored.length ≠ h.storedSize.toNat then .error (.wrongSize stored.length h.storedSize)
  else if Checksum.ofBytes stored ≠ h.checksum then .error (.wrongChecksum h.checksum (Checksum.ofBytes stored))
  else contents h.count stored

theorem decode_of_long (long : 17 ≤ s.length) :
    decode s = verdict ⟨s.headD 0, Header.wordAt s 1, Header.wordAt s 5, Header.wordAt s 9, Header.wordAt s 13⟩
      (s.drop 17) := by
  rw [decode, Header.read, if_neg (show ¬ s.length < Header.size from Nat.not_lt.2 long)]
  rfl

theorem head?_of_long (long : 17 ≤ s.length) : s.head? = some (s.headD 0) := by
  cases s with
  | nil => simp at long
  | cons v rest => rfl

/-- The verdict in terms of what the header states. -/
theorem decode_eq (long : 17 ≤ s.length) :
    decode s =
      if s.head? ≠ some 1 then .error (.unknownVersion (s.headD 0))
      else if stated s 5 ≠ s.length - 17 then .error (.wrongSize (s.length - 17) (Header.wordAt s 5))
      else if stated s 13 ≠ (Checksum.ofBytes (s.drop 17)).toNat then
        .error (.wrongChecksum (Header.wordAt s 13) (Checksum.ofBytes (s.drop 17)))
      else contents (Header.wordAt s 1) (s.drop 17) := by
  have known : s.headD 0 = version ↔ s.head? = some 1 := by
    rw [head?_of_long long, Option.some_inj]
    rfl
  have size : s.length - 17 = stated s 5 ↔ stated s 5 = s.length - 17 := eq_comm
  have checksum : Checksum.ofBytes (s.drop 17) = Header.wordAt s 13 ↔
      stated s 13 = (Checksum.ofBytes (s.drop 17)).toNat := by
    rw [← UInt32.toNat_inj, Header.toNat_wordAt, eq_comm]
  simp only [decode_of_long long, verdict, List.length_drop, Header.toNat_wordAt, ne_eq, known, size, checksum]

theorem decode_of_checked (checked : ∀ check ∈ [Check.header, .version, .size, .checksum], check.Passes s) :
    decode s = contents (Header.wordAt s 1) (s.drop 17) := by
  have long : 17 ≤ s.length := checked .header (by decide)
  have known : s.head? = some 1 := checked .version (by decide)
  have size : stated s 5 = s.length - 17 := checked .size (by decide)
  have checksum : stated s 13 = (Checksum.ofBytes (s.drop 17)).toNat := checked .checksum (by decide)
  rw [decode_eq long, if_neg (not_not_intro known), if_neg (not_not_intro size), if_neg (not_not_intro checksum)]

theorem contents_of_read {rest : Bytes} {n : UInt32} (expanded : plain? stored = some plain)
    (read : Flow.readAll? plain = some (fs, rest)) :
    contents n stored = if fs.length ≠ n.toNat then .error (.wrongCount fs.length n) else .ok fs := by
  simp only [contents, expanded, read]

theorem decode_of_isBlockOf (block : IsBlockOf s fs) : decode s = .ok fs := by
  obtain ⟨plain, expanded, -⟩ := block.holds
  obtain ⟨rest, read⟩ := readAll?_of_holds expanded block.holds (fits_of_stated block.count)
  rw [decode_of_checked fun check _ => block.passes check, contents_of_read expanded read, if_neg]
  rw [Header.toNat_wordAt, block.count]
  exact not_not_intro rfl

/-- A string is refused for the first check that it fails, with true figures. -/
theorem decode_of_failsFirst {check : Check} (first : check.FailsFirst s) :
    ∃ flaw, flaw.check = check ∧ flaw.IsTrue s ∧ decode s = .error flaw := by
  obtain ⟨failed, before⟩ := first
  cases check with
  | header => exact ⟨.shortHeader, rfl, trivial, decode_short (Nat.not_le.1 failed)⟩
  | version =>
    have long : 17 ≤ s.length := before .header (by decide)
    rw [decode_eq long]
    exact ⟨.unknownVersion (s.headD 0), rfl, head?_of_long long, if_pos failed⟩
  | size =>
    have long : 17 ≤ s.length := before .header (by decide)
    have known : s.head? = some 1 := before .version (by decide)
    rw [decode_eq long, if_neg (not_not_intro known)]
    exact ⟨.wrongSize (s.length - 17) (Header.wordAt s 5), rfl, ⟨rfl, Header.toNat_wordAt s 5⟩, if_pos failed⟩
  | checksum =>
    have long : 17 ≤ s.length := before .header (by decide)
    have known : s.head? = some 1 := before .version (by decide)
    have size : stated s 5 = s.length - 17 := before .size (by decide)
    rw [decode_eq long, if_neg (not_not_intro known), if_neg (not_not_intro size)]
    exact ⟨.wrongChecksum (Header.wordAt s 13) _, rfl, ⟨Header.toNat_wordAt s 13, rfl⟩, if_pos failed⟩
  | compression =>
    rw [decode_of_checked before]
    have expanded : plain? (s.drop 17) = none := Option.eq_none_iff_forall_ne_some.2 fun plain same => failed ⟨plain, same⟩
    exact ⟨.notCompressed, rfl, trivial, by simp only [contents, expanded]⟩
  | flows =>
    rw [decode_of_checked fun check early => before check (by revert check; decide)]
    obtain ⟨plain, expanded⟩ : Check.compression.Passes s := before .compression (by decide)
    have unread : Flow.readAll? plain = none := by
      refine Option.eq_none_iff_forall_ne_some.2 fun (fs, rest) read => failed ⟨fs, ?_, holds_of_readAll? expanded read⟩
      exact (Flow.readAll?_eq_some_iff.1 read).1
    exact ⟨.notFlows, rfl, trivial, by simp only [contents, expanded, unread]⟩
  | count =>
    rw [decode_of_checked fun check early => before check (by revert check; decide)]
    obtain ⟨fs, fits, holds⟩ : Check.flows.Passes s := before .flows (by decide)
    obtain ⟨plain, expanded, -⟩ := id holds
    obtain ⟨rest, read⟩ := readAll?_of_holds expanded holds fits
    refine ⟨.wrongCount fs.length (Header.wordAt s 1), rfl, ⟨⟨fs, fits, holds, rfl⟩, Header.toNat_wordAt s 1⟩, ?_⟩
    rw [contents_of_read expanded read, if_pos]
    rw [Header.toNat_wordAt]
    exact fun same => failed ⟨fs, same.symm, holds⟩

/-! ## What is read -/

/-- A number of bytes from a position on; absent if the string does not have them. -/
def slice? (s : Bytes) (first count : Nat) : Option Bytes :=
  if first + count ≤ s.length then some ((s.drop first).take count) else none

/-- Reads a block like `decode`, with every access to the string checked: absent if one goes beyond its end. -/
def decodeWithin? (s : Bytes) : Option (Except Flaw (List Flow)) :=
  if s.length < Header.size then some (.error .shortHeader)
  else
    (slice? s 0 1).bind fun version =>
    (slice? s 1 4).bind fun count =>
    (slice? s 5 4).bind fun storedSize =>
    (slice? s 9 4).bind fun plainSize =>
    (slice? s 13 4).bind fun checksum =>
    (slice? s 17 (s.length - 17)).map fun stored =>
      let word (t : Bytes) : UInt32 := .ofNat (Bytes.toWord t)
      verdict ⟨version.headD 0, word count, word storedSize, word plainSize, word checksum⟩ stored

theorem slice?_of_le {first count : Nat} (within : first + count ≤ s.length) :
    slice? s first count = some ((s.drop first).take count) :=
  if_pos within

/-- No access of the reader goes beyond the string. -/
theorem decodeWithin?_eq (s : Bytes) : decodeWithin? s = some (decode s) := by
  rw [decodeWithin?]
  split
  next short => rw [decode_short short]
  next enough =>
    have long : 17 ≤ s.length := Nat.not_lt.1 enough
    have head : ((s.drop 0).take 1).headD 0 = s.headD 0 := by cases s <;> rfl
    have payload : (s.drop 17).take (s.length - 17) = s.drop 17 := List.take_of_length_le (by simp)
    rw [slice?_of_le (by omega), slice?_of_le (by omega), slice?_of_le (by omega), slice?_of_le (by omega),
      slice?_of_le (by omega), slice?_of_le (by omega), decode_of_long long]
    simp only [Option.bind_some, Option.map_some, head, payload, Header.wordAt]

/-! ## Acceptance -/

/-- Reading yields flows if and only if the string is a block of them. If it is a block of none, reading fails with the
flaw of the first check that the string does not pass, of that check's kind and with true figures. No access goes
beyond the string. -/
theorem accepts_exactly_blocks (s : Bytes) :
    (∀ fs, decode s = .ok fs ↔ IsBlockOf s fs) ∧
    ((∀ fs, ¬ IsBlockOf s fs) ↔ ∃ check flaw, check.FailsFirst s ∧ decode s = .error flaw ∧ flaw.check = check ∧
      flaw.IsTrue s ∧ (Failure.block flaw).kind = check.kind) ∧
    decodeWithin? s = some (decode s) := by
  refine ⟨fun fs => ⟨fun accepted => ?_, decode_of_isBlockOf⟩, ⟨fun noBlock => ?_, ?_⟩, decodeWithin?_eq s⟩
  · rcases exists_isBlockOf_or_failsFirst s with ⟨gs, block⟩ | ⟨check, first⟩
    · rw [decode_of_isBlockOf block] at accepted
      cases accepted
      exact block
    · obtain ⟨flaw, -, -, refused⟩ := decode_of_failsFirst first
      rw [refused] at accepted
      cases accepted
  · rcases exists_isBlockOf_or_failsFirst s with ⟨fs, block⟩ | ⟨check, first⟩
    · exact absurd block (noBlock fs)
    · obtain ⟨flaw, found, figures, refused⟩ := decode_of_failsFirst first
      exact ⟨check, flaw, first, refused, found, figures, found ▸ flaw.kind_eq⟩
  · rintro ⟨check, -, ⟨failed, -⟩, -⟩ fs block
    exact failed (block.passes check)

end Block

end FlowArchive
